import TypeCatalog.Script.Pass
import TypeCatalog.Registry.Modules

/-!
Running scripts. Registering a type runs its description, which registers the types that it
mentions and may run any steps; `depth` bounds how deeply these calls are nested. The row of a
type is published when its description has been run to its end, and removed when that halts.
-/
namespace TypeCatalog.Script

/-- Runs a computation, and a clean-up if it halts. -/
def onHalt {α : Type} (computation : Play α) (cleanUp : Play Unit) : Play α :=
  tryCatch computation fun halt => do
    cleanUp
    throw halt

/-- The module that a type is registered for: the host for types with the hash of a built-in. -/
def ownerOf (u : Universe) (type : TypeKey) (wanted : ModuleId) : ModuleId :=
  if (PrimitiveKind.ofHash? (u.hash type)).isSome then .host else wanted

/-- The declarations of a description, with the default constructor that it offers if the registry
wants it. -/
def Description.wanted (d : Description) (config : RegistryConfig) : List Decl :=
  match d.initial with
  | some value =>
    if config.defaultConstructors then .constructor [] (fun _ => value) [] :: d.decls else d.decls
  | none => d.decls

mutual

/-- Registers a type, or finds the row that is there, published or not. -/
def register (w : World) (depth n : Nat) (owner : ModuleId) (type : TypeKey) : Play TypeHandle :=
  match depth with
  | 0 => throw .exhausted
  | depth + 1 => do
    let r ← Play.registry n
    match r.anyByHash? (w.types.hash type) with
    | some (handle, _) => return handle
    | none =>
      let owner := ownerOf w.types type owner
      let handle ← Play.changeRegistry n (·.insertSkeleton w.types type owner)
      onHalt
        (describe w depth ⟨n, type, handle, owner⟩ ((w.describe type).wanted r.config))
        (Play.changeRegistry n fun r => ((), r.discardPending handle))
      return handle

/-- Runs declarations from an empty draft, and folds the draft into the row. -/
def describe (w : World) (depth : Nat) (p : Pass) (decls : List Decl) : Play Unit :=
  match depth with
  | 0 => throw .exhausted
  | depth + 1 => do
    let draft ← decls.foldlM (declare w depth p) {}
    Play.changeRegistry p.registry fun r => ((), r.commit p.handle draft)

def declare (w : World) (depth : Nat) (p : Pass) (d : Draft) (decl : Decl) : Play Draft :=
  match depth with
  | 0 => throw .exhausted
  | depth + 1 => do
    let u := w.types
    let need (type : TypeKey) : Play Unit := discard (register w depth p.registry p.owner type)
    match decl with
    | .setName name => p.setName d name
    | .annotate key value => p.annotate d key value
    | .enumValue name value => p.addEnumValue d name value
    | .field name target lens offset notes =>
      need target
      p.addField u d name target lens offset notes
    | .property name target getter setter notes =>
      let name ← p.intern name
      need target
      p.addProperty u d name target getter setter notes
    | .base target lens =>
      need target
      return p.addBase u d target lens
    | .method form name params result body notes =>
      params.forM need
      need result
      p.addMethod u d form name params result body notes
    | .constructor params make notes =>
      params.forM need
      need p.type
      p.addConstructor u d params make notes
    | .probe =>
      let r ← Play.registry p.registry
      Play.tell (.probed p.handle p.owner (r.isAlive p.handle))
      return d
    | .panic => throw .panic
    | .run steps =>
      steps.forM (tellStep w depth)
      return d

def addFunction (w : World) (depth n : Nat) (owner : ModuleId) (source : FunctionSource) :
    Play FunctionHandle :=
  match depth with
  | 0 => throw .exhausted
  | depth + 1 => do
    let u := w.types
    let need (type : TypeKey) : Play Unit := discard (register w depth n owner type)
    source.params.forM need
    need source.result
    let number ← Play.fresh
    let callable : Callable :=
      ⟨number, .none, source.params, fun object args => ⟨source.run args, object⟩⟩
    let added ← Play.changeRegistry n fun r =>
      r.addFunction owner source.name (source.params.map u.hash) (u.hash source.result) callable
    match added with
    | .ok handle => return handle
    | .error cause => Play.fail (.registration cause)

def setUpItem (w : World) (depth n : Nat) (name : String) (item : SetUp) : Play Unit :=
  match depth with
  | 0 => throw .exhausted
  | depth + 1 => do
    match item with
    | .register type =>
      Play.tell (.typeEntered (← register w depth n (.ofName name) type))
    | .function source =>
      Play.tell (.functionEntered (← addFunction w depth n (.ofName name) source))
    | .fail message => Play.fail (.registration (.moduleInit name message))
    | .invalid message => Play.fail (.registration (.invalidDeclaration message))
    | .run steps => steps.forM (tellStep w depth)

def act (w : World) (depth n : Nat) (action : Action) : Play Reply :=
  match depth with
  | 0 => throw .exhausted
  | depth + 1 => do
    match action with
    | .request request => request.answer w.types n
    | .register type owner => return .type ⟨n, ← register w depth n owner type⟩
    | .extend type decls =>
      let handle ← register w depth n .host type
      let owner := (((← Play.registry n).row? handle).map Row.owner).getD .host
      describe w depth ⟨n, type, handle, owner⟩ decls
      return .type ⟨n, handle⟩
    | .function source owner => return .function ⟨n, ← addFunction w depth n owner source⟩
    | .setUp name items =>
      let m := ModuleId.ofName name
      if (← Play.registry n).isInitialized m then return .flag false
      Play.changeRegistry n fun r => ((), r.declareModule m name)
      tryCatch (items.forM (setUpItem w depth n name)) fun halt => do
        if let .failed _ := halt then
          discard (Play.changeRegistry n (·.unregisterModule m))
        throw halt
      Play.changeRegistry n fun r => ((), r.markInitialized m)
      return .flag true

/-- Runs a step. Its answer is told with all that it has told while it ran. -/
def tellStep (w : World) (depth : Nat) (step : Step) : Play Unit :=
  match depth with
  | 0 => Play.tell (.step (.error .exhausted) [])
  | depth + 1 => do
    let before := (← get).told
    modify fun s => { s with told := [] }
    let n ← modifyGet (·.named step.registry)
    let answer ← tryCatch (Except.ok <$> act w depth n step.action) fun halt => pure (.error halt)
    if let .ok reply := answer then
      if let some word := step.keepAs then modify (·.keep word reply)
    modify fun s => { s with told := before ++ [.step answer s.told] }

end

def depthLimit : Nat := 4096

def play (w : World) (steps : List Step) : List Entry :=
  let (_, s) := (steps.forM (tellStep w depthLimit)).run.run {}
  s.told

end TypeCatalog.Script
