import TypeCatalog.Proofs.Closure
import TypeCatalog.Proofs.Overloads

/-!
Functions that are refused. A module may not enter a function with the name and the parameters of
another module's. That is found out once the types of the signature have been registered, so these
stay: a refused function leaves what registering the types alone would have left.
-/
namespace TypeCatalog

theorem Registry.eq_of_addFunction_error {r s : Registry} {owner : ModuleId} {name : String}
    {params : List TypeHash} {returnType : TypeHash} {callable : Callable}
    {cause : RegistrationError}
    (refused : r.addFunction owner name params returnType callable = (.error cause, s)) :
    cause = .duplicateRegistration name "function" ∧
      (∃ h present, r.functionBySignature? (.ofFunction name params) = some (h, present) ∧
        present.owner ≠ owner) ∧ s = r := by
  unfold addFunction at refused
  dsimp only at refused
  split at refused
  · rename_i h present found
    split at refused
    · cases refused
    · rename_i other
      cases refused
      exact ⟨rfl, ⟨h, present, found, other⟩, rfl⟩
  · cases refused

namespace Script

namespace Play

variable {α β : Type} {x : Play α} {f : α → Play β}

/-- Whether a computation gives no failure of its own, and halts otherwise if it halts. -/
def Unfailing (x : Play α) : Prop := ∀ s cause t, x.outcome s ≠ (.error (.failed cause), t)

/-- What answers at all times does not fail. -/
theorem Unfailing.of_ok (answers : ∀ s, ∃ a t, x.outcome s = (.ok a, t)) : Unfailing x := by
  intro s cause t failed
  obtain ⟨a, s', done⟩ := answers s
  rw [done] at failed
  cases failed

theorem unfailing_pure (a : α) : Unfailing (pure a) := .of_ok fun _ => ⟨a, _, rfl⟩

theorem unfailing_changeRegistry (n : Nat) (change : Registry → α × Registry) :
    Unfailing (changeRegistry n change) := .of_ok fun s => ⟨_, _, outcome_changeRegistry n change s⟩

theorem unfailing_fresh : Unfailing fresh := .of_ok fun _ => ⟨_, _, rfl⟩

theorem unfailing_throw {halt : Halt} (other : ∀ cause, halt ≠ .failed cause) :
    Unfailing (throw halt : Play α) := by
  intro s cause t failed
  cases failed
  exact other cause rfl

theorem Unfailing.bind (first : Unfailing x) (next : ∀ a, Unfailing (f a)) :
    Unfailing (x >>= f) := by
  intro s cause t failed
  rcases begun : x.outcome s with ⟨answer, s'⟩
  cases answer with
  | ok a =>
    rw [outcome_bind_ok begun] at failed
    exact next a s' cause t failed
  | error halt =>
    rw [outcome_bind_error begun] at failed
    cases failed
    exact first s cause t begun

theorem Unfailing.discard (unfailing : Unfailing x) : Unfailing (discard x) :=
  unfailing.bind fun _ => unfailing_pure ()

theorem unfailing_forM {f : α → Play PUnit} (each : ∀ a, Unfailing (f a)) (items : List α) :
    Unfailing (items.forM f) := by
  induction items with
  | nil => exact unfailing_pure _
  | cons first rest ih => exact (each first).bind fun _ => ih

theorem unfailing_mapM (each : ∀ a, Unfailing (f a)) (items : List α) :
    Unfailing (items.mapM f) := by
  induction items with
  | nil => exact unfailing_pure _
  | cons first rest ih =>
    rw [List.mapM_cons]
    exact (each first).bind fun _ => ih.bind fun _ => unfailing_pure _

theorem unfailing_foldlM {f : β → α → Play β} (each : ∀ b a, Unfailing (f b a)) (items : List α)
    (start : β) : Unfailing (items.foldlM f start) := by
  induction items generalizing start with
  | nil => exact unfailing_pure _
  | cons first rest ih =>
    rw [List.foldlM_cons]
    exact (each start first).bind ih

/-- What is caught does not fail either. -/
theorem unfailing_tryCatch {handler : Halt → Play α} (handled : ∀ halt, Unfailing (handler halt)) :
    Unfailing (tryCatch x handler) := by
  intro s cause t failed
  rcases begun : x.outcome s with ⟨answer, s'⟩
  cases answer with
  | ok a =>
    rw [outcome_tryCatch_ok begun] at failed
    cases failed
  | error halt =>
    rw [outcome_tryCatch_error begun] at failed
    exact handled halt s' cause t failed

theorem Unfailing.onHalt (unfailing : Unfailing x) {cleanUp : Play Unit}
    (clean : Unfailing cleanUp) : Unfailing (onHalt x cleanUp) := by
  intro s cause t failed
  rcases begun : x.outcome s with ⟨answer, s'⟩
  cases answer with
  | ok a =>
    rw [Script.onHalt, outcome_tryCatch_ok begun] at failed
    cases failed
  | error halt =>
    -- The halt is thrown again, so the failure would be one of the computation itself.
    have again : Unfailing (throw halt : Play α) :=
      unfailing_throw fun cause' same => unfailing s cause' s' (same ▸ begun)
    rw [Script.onHalt, outcome_tryCatch_error begun] at failed
    exact clean.bind (fun _ => again) s' cause t failed

end Play

open Play

theorem Pass.unfailing_notes (p : Pass) (notes : Notes) : Unfailing (p.notes notes) :=
  unfailing_mapM (fun _ => unfailing_changeRegistry _ _) notes

variable {w : World} {depth n k : Nat} {owner : ModuleId} {type : TypeKey} {s t v : Session}
  {source : FunctionSource}

/-- The answer of a step is told, whatever it is. -/
theorem unfailing_tellStep (w : World) (depth : Nat) (step : Step) :
    Unfailing (tellStep w depth step) := by
  cases depth with
  | zero =>
    rw [tellStep]
    exact .of_ok fun _ => ⟨_, _, rfl⟩
  | succ depth =>
    have change : ∀ change : Session → Session, Unfailing (modify change : Play PUnit) :=
      fun _ => .of_ok fun _ => ⟨_, _, rfl⟩
    rw [tellStep]
    refine Unfailing.bind (.of_ok fun _ => ⟨_, _, rfl⟩) fun before => (change _).bind fun _ => ?_
    refine Unfailing.bind (.of_ok fun _ => ⟨_, _, rfl⟩) fun n => ?_
    refine (unfailing_tryCatch fun halt => unfailing_pure _).bind fun answer => ?_
    split
    · split
      · exact (change _).bind fun _ => change _
      · exact change _
    · exact change _

/-- Whether no description fails, and no registration of a type, nested to a depth. -/
structure UnfailingAt (w : World) (depth : Nat) : Prop where
  register : ∀ n owner type, Unfailing (register w depth n owner type)
  describe : ∀ p decls, Unfailing (describe w depth p decls)
  declare : ∀ p d decl, Unfailing (declare w depth p d decl)

theorem UnfailingAt.register_succ (unfailing : UnfailingAt w depth) (n : Nat) (owner : ModuleId)
    (type : TypeKey) : Unfailing (Script.register w (depth + 1) n owner type) := by
  rw [Script.register]
  refine Unfailing.bind (.of_ok fun _ => ⟨_, _, rfl⟩) fun r => ?_
  split
  · exact unfailing_pure _
  · refine (unfailing_changeRegistry _ _).bind fun handle => ?_
    exact ((unfailing.describe _ _).onHalt (unfailing_changeRegistry _ _)).bind fun _ =>
      unfailing_pure _

theorem UnfailingAt.declare_succ (unfailing : UnfailingAt w depth) (p : Pass) (d : Draft)
    (decl : Decl) : Unfailing (Script.declare w (depth + 1) p d decl) := by
  have need : ∀ type, Unfailing
      (discard (Script.register w depth p.registry p.owner type)) :=
    fun type => (unfailing.register p.registry p.owner type).discard
  have enter : ∀ {α} (change : Registry → α × Registry) (result : α → Draft), Unfailing (do
      let a ← Play.changeRegistry p.registry change
      return result a) :=
    fun change result => (unfailing_changeRegistry _ change).bind fun _ => unfailing_pure _
  have noted : ∀ notes (result : List Attribute → Draft), Unfailing (do
      let attributes ← p.notes notes
      return result attributes) :=
    fun notes result => (p.unfailing_notes notes).bind fun _ => unfailing_pure _
  rw [Script.declare.eq_def]
  cases decl with
  | setName name => exact enter _ _
  | annotate key value => exact enter _ _
  | enumValue name value => exact enter _ _
  | field name target lens offset notes =>
    exact (need target).bind fun _ => (unfailing_changeRegistry _ _).bind fun _ =>
      unfailing_fresh.bind fun _ => noted notes _
  | property name target getter setter notes =>
    exact (unfailing_changeRegistry _ _).bind fun _ => (need target).bind fun _ => noted notes _
  | base target lens => exact (need target).bind fun _ => unfailing_pure _
  | method form name params result body notes =>
    exact (unfailing_forM need params).bind fun _ => (need result).bind fun _ =>
      (unfailing_changeRegistry _ _).bind fun _ => unfailing_fresh.bind fun _ => noted notes _
  | constructor params make notes =>
    exact (unfailing_forM need params).bind fun _ => (need p.type).bind fun _ =>
      unfailing_fresh.bind fun _ => noted notes _
  | probe => exact .of_ok fun _ => ⟨_, _, rfl⟩
  | panic => exact unfailing_throw (by simp)
  | run steps =>
    exact (unfailing_forM (unfailing_tellStep w depth) steps).bind fun _ => unfailing_pure _

theorem unfailingAt (w : World) (depth : Nat) : UnfailingAt w depth := by
  induction depth with
  | zero =>
    constructor
    · intro n owner type
      rw [register]
      exact unfailing_throw (by simp)
    · intro p decls
      rw [describe]
      exact unfailing_throw (by simp)
    · intro p d decl
      rw [declare]
      exact unfailing_throw (by simp)
  | succ depth ih =>
    refine ⟨ih.register_succ, fun p decls => ?_, ih.declare_succ⟩
    rw [describe]
    exact (unfailing_foldlM (ih.declare p) decls {}).bind fun _ => unfailing_changeRegistry _ _

/-- The types of a function's signature. -/
def FunctionSource.types (source : FunctionSource) : List TypeKey :=
  source.params ++ [source.result]

/-- The registration of the types of a function's signature, before the function is entered. -/
def signing (w : World) (depth n : Nat) (owner : ModuleId) (source : FunctionSource) :
    Play Unit := do
  source.params.forM fun type => discard (register w depth n owner type)
  discard (register w depth n owner source.result)

/-- What is done once the types of a function's signature are registered. -/
def entering (w : World) (n : Nat) (owner : ModuleId) (source : FunctionSource) :
    Play FunctionHandle := do
  let number ← Play.fresh
  let callable : Callable :=
    ⟨number, .none, source.params, fun object args => ⟨source.run args, object⟩⟩
  let added ← Play.changeRegistry n fun r =>
    r.addFunction owner source.name (source.params.map w.types.hash) (w.types.hash source.result)
      callable
  match added with
  | .ok handle => return handle
  | .error cause => Play.fail (.registration cause)

theorem addFunction_eq (w : World) (depth n : Nat) (owner : ModuleId) (source : FunctionSource) :
    addFunction w (depth + 1) n owner source =
      signing w depth n owner source >>= fun _ => entering w n owner source := by
  rw [addFunction, signing, bind_assoc]
  rfl

theorem unfailing_signing (w : World) (depth n : Nat) (owner : ModuleId)
    (source : FunctionSource) : Unfailing (signing w depth n owner source) := by
  have need := fun type => ((unfailingAt w depth).register n owner type).discard
  exact (unfailing_forM need source.params).bind fun _ => need source.result

def FunctionSource.callable (source : FunctionSource) (number : Nat) : Callable :=
  ⟨number, .none, source.params, fun object args => ⟨source.run args, object⟩⟩

theorem outcome_entering {answer : Except RegistrationError FunctionHandle} {r : Registry}
    (added : (s.registry n).addFunction owner source.name (source.params.map w.types.hash)
      (w.types.hash source.result) (source.callable s.nextNumber) = (answer, r)) :
    (entering w n owner source).outcome s =
      (answer.mapError fun cause => .failed (.registration cause),
        { s with nextNumber := s.nextNumber + 1, registries := s.registries.set n r }) := by
  have given : Play.fresh.outcome s =
      (.ok s.nextNumber, { s with nextNumber := s.nextNumber + 1 }) := rfl
  have changed := congrArg (fun added : Except RegistrationError FunctionHandle × Registry =>
    ((.ok added.1 : Except Halt (Except RegistrationError FunctionHandle)),
      { s with nextNumber := s.nextNumber + 1, registries := s.registries.set n added.2 })) added
  rw [entering, outcome_bind_ok given]
  refine (outcome_bind_ok changed).trans ?_
  cases answer <;> rfl

/-- A function is not entered only if another module has one of its signature. All that is done then
is that a number has been given away. -/
theorem outcome_entering_failed {cause : Failure}
    (failed : (entering w n owner source).outcome s = (.error (.failed cause), t)) :
    cause = .registration (.duplicateRegistration source.name "function") ∧
      (∃ h present, (s.registry n).functionBySignature?
        (.ofFunction source.name (source.params.map w.types.hash)) = some (h, present) ∧
          present.owner ≠ owner) ∧
      t = { s with nextNumber := s.nextNumber + 1 } := by
  rcases added : (s.registry n).addFunction owner source.name (source.params.map w.types.hash)
    (w.types.hash source.result) (source.callable s.nextNumber) with ⟨answer, r⟩
  rw [outcome_entering added] at failed
  cases answer with
  | ok h => cases failed
  | error cause =>
    cases failed
    obtain ⟨rfl, another, rfl⟩ := Registry.eq_of_addFunction_error added
    exact ⟨rfl, another, by rw [registries_set_registry]⟩

/-- A type that has a row needs nothing to be done. -/
theorem session_of_need {a : PUnit} (known : (s.registry n).Knows (w.types.hash type))
    (done : (discard (register w depth n owner type) : Play PUnit).outcome s = (.ok a, t)) :
    t = s := by
  obtain ⟨h, v, registered, rest⟩ := outcome_bind_eq_ok done
  cases rest
  cases depth with
  | zero =>
    rw [register] at registered
    cases registered
  | succ depth =>
    obtain ⟨⟨g, row⟩, there⟩ := known
    rw [outcome_register_known there] at registered
    cases registered
    rfl

theorem session_of_signing
    (known : ∀ type ∈ source.types, (s.registry n).Knows (w.types.hash type))
    (done : (signing w depth n owner source).outcome s = (.ok (), t)) : t = s := by
  have first : ∀ {params : List TypeKey} {v a},
      (∀ type ∈ params, (s.registry n).Knows (w.types.hash type)) →
      (params.forM fun type => discard (register w depth n owner type)).outcome s = (.ok a, v) →
      v = s := by
    intro params v a known done
    induction params with
    | nil => cases done; rfl
    | cons type rest ih =>
      obtain ⟨here, later⟩ := List.forall_mem_cons.mp known
      obtain ⟨_, v', need, done⟩ := outcome_bind_eq_ok done
      cases session_of_need here need
      exact ih later done
  obtain ⟨params, result⟩ := List.forall_mem_append.mp known
  obtain ⟨_, v, taken, answered⟩ := outcome_bind_eq_ok done
  cases first params taken
  exact session_of_need (result _ (List.mem_singleton_self _)) answered

/-- Registering the types of a signature that only declare members registers those, and what they
refer to. -/
theorem enters_signing {family : List TypeKey} (closed : w.Closed family)
    (listed : source.types ⊆ family) (steady : s.Steady n none) (owner : ModuleId) :
    Enters w n (fun q => ∃ type ∈ source.types, Relation.ReflTransGen w.Asks (type, owner) q) none 0
      (3 * family.length + 1) (signing w · n owner source) s fun _ _ => True := by
  have registers : Registers w n family family.length := registers_covered n family.length
  have few : ∀ r, (lacking w family r).length ≤ family.length :=
    fun _ => List.length_filter_le _ _
  obtain ⟨params, result⟩ := List.append_subset.mp listed
  refine (registers.needs steady (closed.covers _) (few _) params fun type member q asks =>
    ⟨type, List.mem_append_left _ member, asks⟩).bind steady
      (f := fun depth _ => discard (register w depth n owner source.result))
      fun _ t later _ _ => ?_
  obtain ⟨a, v, entered, -, ends⟩ := registers.need later (closed.covers _) (few _)
    (result (List.mem_singleton_self _)) fun q asks =>
      (⟨_, List.mem_append_right _ (List.mem_singleton_self _), asks⟩ :
        ∃ type ∈ source.types, Relation.ReflTransGen w.Asks (type, owner) q)
  exact ⟨a, v, entered, trivial, ends⟩

open Catalog in
/-- A function is refused when another module has one of its name and parameters. What is left then
is what registering the types of its signature has left, so nothing if these have rows all. If the
descriptions of types only declare members, the rows that were there, the functions and the
overloads of every name are as they were, and so is what the modules have, but for the number of
types of those that own new rows. New rows are published, and of types of the signature or of such
as these refer to. -/
theorem refused_function_registers_types_only {passes : List OpenPass} {name kind : String}
    (reachable : Reachable w.types (s.catalog passes)) (within : n < s.registries.length)
    (refused : (addFunction w (depth + 1) n owner source).outcome s =
      (.error (.failed (.registration (.duplicateRegistration name kind))), t)) :
    (∃ v, (signing w depth n owner source).outcome s = (.ok (), v) ∧
      t = { v with nextNumber := v.nextNumber + 1 } ∧
      ∃ h present, (t.registry n).functionBySignature?
        (.ofFunction source.name (source.params.map w.types.hash)) = some (h, present) ∧
          present.owner ≠ owner) ∧
    ((∀ type ∈ source.types, (s.registry n).Knows (w.types.hash type)) →
      t = { s with nextNumber := s.nextNumber + 1 }) ∧
    ∀ family, w.Closed family → source.types ⊆ family → 3 * family.length < depth →
      (s.registry n).RetainedIn (t.registry n) ∧
      (∀ text, (t.registry n).functionsNamed text = (s.registry n).functionsNamed text) ∧
      ∀ h row, (s.registry n).anyRow? h = none → (t.registry n).anyRow? h = some row →
        row.published = true ∧ ∃ type ∈ source.types, ∃ asked by_,
          Relation.ReflTransGen w.Asks (type, owner) (asked, by_) ∧
            row.typeHash = w.types.hash asked ∧ row.owner = ownerOf w.types asked by_ := by
  rw [addFunction_eq] at refused
  rcases signed : (signing w depth n owner source).outcome s with ⟨answer, v⟩
  cases answer with
  | error halt =>
    rw [outcome_bind_error signed] at refused
    cases refused
    exact absurd signed (unfailing_signing w depth n owner source s _ _)
  | ok done =>
    rw [outcome_bind_ok signed] at refused
    obtain ⟨-, another, rfl⟩ := outcome_entering_failed refused
    refine ⟨⟨v, rfl, rfl, another⟩, fun known => ?_, fun family closed listed deep => ?_⟩
    · rw [session_of_signing known signed]
    · have steady : s.Steady n none := ⟨within, reachable.allConsistent n, nofun⟩
      obtain ⟨_, v', entered, -, ends⟩ := enters_signing closed listed steady owner
      cases (ends depth deep).symm.trans signed
      have retained := entered.retained
      refine ⟨retained, fun text => ?_, fun h row absent there => ?_⟩
      · exact (reachable.functionsHeld n).functionsNamed_of_tables retained.functionTables
          retained.names text
      · obtain ⟨⟨⟨asked, by_⟩, ⟨type, member, asks⟩, hash, owned, -⟩, published, -⟩ :=
          entered.added absent there
        exact ⟨published, type, member, asked, by_, asks, hash, owned⟩

/-- A function of one number. -/
def ofNumber (result : TypeKey) : FunctionSource := ⟨"f", [Gallery.i32], result, fun _ => .void⟩

/-- A session in which a module has a function of one number. -/
def oneFunction : Session :=
  ((addFunction (describing []) 8 0 (.ofName "one") (ofNumber (.primitive .string))).outcome
    oneRegistry).2

theorem oneFunction_ready :
    Catalog.Reachable (describing []).types (oneFunction.catalog []) ∧ oneFunction.Numbered ∧
      0 < oneFunction.registries.length :=
  have lawful : (describing []).All (Catalog.Law.annotated _).allows := describing_all trivial
  after_oneRegistry ((tameAt lawful 8).addFunction 0 (.ofName "one") _)

/-- A function that is refused leaves the functions and rows that were there, also where its answer
is of a type that had no row. -/
theorem functions_kept_by_refused_function :
    let refused := (addFunction (describing []) 8 0 (.ofName "two")
      (ofNumber (.primitive .void))).outcome oneFunction
    (refused.2.registry 0).functionTables = (oneFunction.registry 0).functionTables ∧
      (refused.2.registry 0).functionsNamed "f" = (oneFunction.registry 0).functionsNamed "f" ∧
      ∀ h row, (oneFunction.registry 0).anyRow? h = some row →
        (refused.2.registry 0).anyRow? h = some row := by
  intro refused
  obtain ⟨reachable, -, within⟩ := oneFunction_ready
  have computed : refused.1 = .error (.failed (.registration (.duplicateRegistration "f"
      "function"))) := by
    decide +kernel
  have closed : (describing []).Closed [Gallery.i32, .primitive .void] := by
    have silent : ∀ type, ((describing []).describe type).decls = [] := by
      intro type
      simp only [describing]
      split <;> rfl
    exact ⟨fun type _ decl declared => by simp [silent] at declared,
      fun type _ decl declared => by simp [silent] at declared⟩
  obtain ⟨-, -, kept⟩ := refused_function_registers_types_only reachable within
    (Prod.ext computed rfl : refused = (_, refused.2))
  obtain ⟨retained, named, -⟩ := kept _ closed (List.Subset.refl _) (by decide)
  exact ⟨retained.functionTables, named "f", fun h row => retained.rows⟩

/-- A function is refused after the type of its answer has been registered. -/
theorem type_registered_by_refused_function :
    let void := (describing []).types.hash (.primitive .void)
    let refused := (addFunction (describing []) 8 0 (.ofName "two")
      (ofNumber (.primitive .void))).outcome oneFunction
    Catalog.Reachable (describing []).types (oneFunction.catalog []) ∧
      refused.1 = .error (.failed (.registration (.duplicateRegistration "f" "function"))) ∧
      (oneFunction.registry 0).typeByHash? void = none ∧
      ((refused.2.registry 0).typeByHash? void).isSome = true :=
  ⟨oneFunction_ready.1, by decide +kernel⟩

end Script

end TypeCatalog
