import TypeCatalog.Script.Reply

/-!
The state that the steps of a script share: registries by name, the slots of exported callables,
and what steps have stored under names.
-/
namespace TypeCatalog.Script

structure Session where
  registries : List Registry := []
  /-- The number of the registry that has a name now. -/
  registryNames : Index String Nat := .empty
  exports : ExportTable := .empty
  nextNumber : Nat := 0
  types : Index String (In TypeHandle) := .empty
  members : Index String (In (MemberKind × MemberHandle)) := .empty
  functions : Index String (In FunctionHandle) := .empty
  calls : Index String (In ResolvedCall) := .empty
  objects : Index String Value := .empty
  images : Index String (List UInt8) := .empty
  names : Index String NameId := .empty
  told : List Entry := []

/-- A computation of a script. What it has changed stays changed when it halts. -/
abbrev Play (α : Type) := ExceptT Halt (StateM Session) α

def detailKind : MemberDetail → MemberKind
  | .field _ => .field
  | .property _ => .property
  | .method _ => .method
  | .constructor _ => .constructor
  | .base _ => .base
  | .enumValue _ => .enumValue

namespace Session

def registry (s : Session) (n : Nat) : Registry := s.registries[n]?.getD {}

/-- The number of the registry with a name, which is made on first use. -/
def named (s : Session) (name : String) : Nat × Session :=
  match s.registryNames.find? name with
  | some n => (n, s)
  | none =>
    (s.registries.length,
      { s with
        registries := s.registries ++ [{}]
        registryNames := s.registryNames.insert name s.registries.length })

/-- Gives a name to a new registry. -/
def addRegistry (s : Session) (name : String) (r : Registry) : Session :=
  { s with
    registries := s.registries ++ [r]
    registryNames := s.registryNames.insert name s.registries.length }

/-- Stores an answer under a word; an answer that found nothing stores nothing. What is stored
stays with the registry that it was found in, whichever registry the step was on. -/
def keep (s : Session) (word : String) : Reply → Session
  | .type handle | .foundType (some handle) => { s with types := s.types.insert word handle }
  | .member (some ⟨n, view⟩) =>
    { s with members := s.members.insert word ⟨n, detailKind view.detail, view.handle⟩ }
  | .function handle => { s with functions := s.functions.insert word handle }
  | .call call _ => { s with calls := s.calls.insert word call }
  | .value value | .rawCall _ value => { s with objects := s.objects.insert word value }
  | .image bytes _ => { s with images := s.images.insert word bytes }
  | .name id => { s with names := s.names.insert word id }
  | _ => s

end Session

namespace Play

def fail {α : Type} (cause : Failure) : Play α := throw (.failed cause)

def orMissing {α : Type} (what : Referent) (word : String) : Option α → Play α
  | some a => pure a
  | none => fail (.missing what word)

def query {α : Type} : Except QueryError α → Play α
  | .ok a => pure a
  | .error cause => fail (.query cause)

def registry (n : Nat) : Play Registry := return (← get).registry n

def changeRegistry {α : Type} (n : Nat) (change : Registry → α × Registry) : Play α :=
  modifyGet fun s =>
    let (a, r) := change (s.registry n)
    (a, { s with registries := s.registries.set n r })

def fresh : Play Nat := modifyGet fun s => (s.nextNumber, { s with nextNumber := s.nextNumber + 1 })

def tell (entry : Entry) : Play Unit := modify fun s => { s with told := s.told ++ [entry] }

/-- The type that a word stands for: a stored handle, or the type of that name in the registry of
number `n`. -/
def typeHandle (n : Nat) (word : String) : Play (In TypeHandle) := do
  let s ← get
  match s.types.find? word with
  | some stored => return stored
  | none => return ⟨n, ← orMissing .typeHandle word ((s.registry n).typeByName? word)⟩

def member (word : String) : Play (In (MemberKind × MemberHandle)) := do
  orMissing .member word ((← get).members.find? word)

def function (word : String) : Play (In FunctionHandle) := do
  orMissing .function word ((← get).functions.find? word)

def call (word : String) : Play (In ResolvedCall) := do
  orMissing .call word ((← get).calls.find? word)

def object (word : String) : Play Value := do
  orMissing .object word ((← get).objects.find? word)

def presentObject (word : String) : Play Value := do
  let object ← object word
  if object.isVoid then fail .voidObject else return object

def setObject (word : String) (value : Value) : Play Unit :=
  modify fun s => { s with objects := s.objects.insert word value }

def dropObject (word : String) : Play Unit :=
  modify fun s => { s with objects := s.objects.erase word }

end Play

end TypeCatalog.Script
