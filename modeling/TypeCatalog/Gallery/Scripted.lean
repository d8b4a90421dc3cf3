import TypeCatalog.Gallery.Descriptions
import TypeCatalog.Gallery.Written

/-!
Members of the scripted types, whose objects end with the core. A scripted callable answers a
text made of its label and its arguments, so that an answer shows what ran and what it was given.
-/
namespace TypeCatalog.Gallery

open Script

inductive AnswerForm where
  | text
  | self
  | first
  | nothing
deriving DecidableEq

/-- The form of the answer that a script's word asks for, where the parameters admit it: a callable
with more than `mute` parameters always answers something. -/
def AnswerForm.ofWord (mute : Nat) (word : Option String) (params : List TypeKey) : AnswerForm :=
  match word, params with
  | some "self", [] => .self
  | some "first", [_] => .first
  | some "void", params => if params.length ≤ mute then .nothing else .text
  | _, _ => .text

def AnswerForm.ofMethod : Option String → List TypeKey → AnswerForm := ofWord 0

/-- The form of a function's answer. One with two parameters or more answers something. -/
def AnswerForm.ofFunction : Option String → List TypeKey → AnswerForm := ofWord 1

/-- The place that a word names inside objects of a type, and the type of what is there: a member,
or the whole object. -/
def slot (key word : String) : TypeKey × Lens :=
  if word = "self" then (.user key, .whole)
  else
    match (membersOf key).find? (·.1 = word) with
    | some (name, type) => (type, memberLens name type)
    | none => (void, ⟨fun _ => .void, fun object _ => object⟩)

def scriptedField (key name word : String) (offset : Option UInt64) (notes : Notes) : Decl :=
  let (target, lens) := slot key word
  .field name target lens offset notes

def scriptedProperty (key name word : String) (writable : Bool) (notes : Notes) : Decl :=
  let (target, lens) := slot key word
  .property name target lens.view (if writable then some lens.update else none) notes

def scriptedBase (key word : String) : Decl :=
  let (target, lens) := slot key word
  .base target lens

def callText (label : String) (args : List Value) : String := label ++ "(" ++ shownAll args ++ ")"

def scriptedReader (key name label : String) (params : List TypeKey) (form : AnswerForm)
    (notes : Notes) : Decl :=
  if form = .self then
    .method .shared name params (.user key) (fun object _ => ⟨object, object⟩) notes
  else
    .method .shared name params string
      (fun object args =>
        ⟨.string (callText (label ++ "@" ++ coreText object) args), object⟩) notes

/-- An object after a scripted method has changed it: its text is longer and its number greater. -/
def record (label : String) (object : Value) (args : List Value) : Value :=
  let text := coreText object ++ callText label args ++ ";"
  let number := int32 object "i" + 1
  (object.withMember "s" (.string text)).withMember "i" (ofInt32 number)

def scriptedChanger (name label : String) (params : List TypeKey) (notes : Notes) : Decl :=
  .method .exclusive name params void (fun object args => ⟨.void, record label object args⟩) notes

def answerType (params : List TypeKey) : AnswerForm → TypeKey
  | .first => params.headD void
  | .nothing => void
  | .text | .self => string

def answerWith (label : String) (form : AnswerForm) (args : List Value) : Value :=
  match form with
  | .first => args.headD .void
  | .nothing => .void
  | .text | .self => .string (callText label args)

def scriptedStatic (name label : String) (params : List TypeKey) (form : AnswerForm)
    (notes : Notes) : Decl :=
  .method .static name params (answerType params form)
    (fun object args => ⟨answerWith label form args, object⟩) notes

def scriptedConstructor (key label : String) (params : List TypeKey) (notes : Notes) : Decl :=
  .constructor params (fun args => .object key [("s", .string (callText label args))]) notes

def defaultConstructor (key : String) (notes : Notes) : Decl :=
  .constructor [] (fun _ => .object key []) notes

def scriptedFunction (name label : String) (params : List TypeKey) (form : AnswerForm) :
    FunctionSource :=
  ⟨name, params, answerType params form, answerWith label form⟩

end TypeCatalog.Gallery
