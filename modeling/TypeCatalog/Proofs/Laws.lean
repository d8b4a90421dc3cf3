import TypeCatalog.Proofs.Attributes
import TypeCatalog.Script.Step

/-!
What can be kept of the states that a script goes through. A law is a property of catalogs that all
steps keep, apart from four kinds of step that may be restricted: the end of a description, a
further description of a type, the merge of an image, and the removal of a module. Which of them a
script takes can be read off its text, so a law says what the text of a script may hold.
-/
namespace TypeCatalog

open Script

-- The actions within a script, those within descriptions included.
namespace Script

mutual

/-- Whether all actions within a declaration may be taken. -/
def Decl.All (may : Action → Prop) : Decl → Prop
  | .run steps => allSteps may steps
  | _ => True

def SetUp.All (may : Action → Prop) : SetUp → Prop
  | .run steps => allSteps may steps
  | _ => True

def Action.All (may : Action → Prop) : Action → Prop
  | .extend type decls => may (.extend type decls) ∧ allDecls may decls
  | .setUp name items => may (.setUp name items) ∧ allItems may items
  | action => may action

def Step.All (may : Action → Prop) : Step → Prop
  | .mk _ _ action => action.All may

def allSteps (may : Action → Prop) : List Step → Prop
  | [] => True
  | step :: rest => step.All may ∧ allSteps may rest

def allDecls (may : Action → Prop) : List Decl → Prop
  | [] => True
  | decl :: rest => decl.All may ∧ allDecls may rest

def allItems (may : Action → Prop) : List SetUp → Prop
  | [] => True
  | item :: rest => item.All may ∧ allItems may rest

end

theorem allSteps_iff {may : Action → Prop} {steps : List Step} :
    allSteps may steps ↔ ∀ step ∈ steps, step.All may := by
  induction steps with
  | nil => simp [allSteps]
  | cons step rest ih => simp [allSteps, ih]

theorem allDecls_iff {may : Action → Prop} {decls : List Decl} :
    allDecls may decls ↔ ∀ decl ∈ decls, decl.All may := by
  induction decls with
  | nil => simp [allDecls]
  | cons decl rest ih => simp [allDecls, ih]

theorem allItems_iff {may : Action → Prop} {items : List SetUp} :
    allItems may items ↔ ∀ item ∈ items, item.All may := by
  induction items with
  | nil => simp [allItems]
  | cons item rest ih => simp [allItems, ih]

mutual

theorem Decl.all_of {may : Action → Prop} (every : ∀ action, may action) :
    ∀ decl : Decl, decl.All may
  | .run steps => by rw [Decl.All]; exact allSteps_of every steps
  | .setName _ | .annotate .. | .enumValue .. | .field .. | .property .. | .base .. | .method ..
  | .constructor .. | .probe | .panic => trivial

theorem SetUp.all_of {may : Action → Prop} (every : ∀ action, may action) :
    ∀ item : SetUp, item.All may
  | .run steps => by rw [SetUp.All]; exact allSteps_of every steps
  | .register _ | .function _ | .fail _ | .invalid _ => trivial

theorem Action.all_of {may : Action → Prop} (every : ∀ action, may action) :
    ∀ action : Action, action.All may
  | .extend _ decls => ⟨every _, allDecls_of every decls⟩
  | .setUp _ items => ⟨every _, allItems_of every items⟩
  | .request _ | .register .. | .function .. => every _

theorem Step.all_of {may : Action → Prop} (every : ∀ action, may action) :
    ∀ step : Step, step.All may
  | .mk _ _ action => Action.all_of every action

theorem allSteps_of {may : Action → Prop} (every : ∀ action, may action) :
    ∀ steps : List Step, allSteps may steps
  | [] => trivial
  | step :: rest => ⟨step.all_of every, allSteps_of every rest⟩

theorem allDecls_of {may : Action → Prop} (every : ∀ action, may action) :
    ∀ decls : List Decl, allDecls may decls
  | [] => trivial
  | decl :: rest => ⟨decl.all_of every, allDecls_of every rest⟩

theorem allItems_of {may : Action → Prop} (every : ∀ action, may action) :
    ∀ items : List SetUp, allItems may items
  | [] => trivial
  | item :: rest => ⟨item.all_of every, allItems_of every rest⟩

end

/-- Whether all actions within the descriptions of a world may be taken. -/
def World.All (w : World) (may : Action → Prop) : Prop :=
  ∀ type, allDecls may (w.describe type).decls

end Script

namespace Catalog

variable {u : Universe} {c d : Catalog}

/-- A property of the states of a run, and the steps that are restricted for its sake. -/
structure Law (u : Universe) where
  inv : Catalog → Prop
  /-- Whether a description of the row behind a handle may end. -/
  frees : Nat → TypeHandle → Prop
  /-- Whether there may be further descriptions of a type. -/
  opens : TypeKey → Prop
  /-- Whether images may be merged. -/
  merges : Prop
  /-- Whether a module may be removed. -/
  clears : ModuleId → Prop
  move : ∀ {c d : Catalog}, inv c → Move u c d → c.AnnotatesAll d →
    (∀ p, c.passes = p :: d.passes → frees p.pass.registry p.pass.handle) → inv d
  merge : ∀ {c : Catalog} (n : Nat) (bytes : List UInt8) (options : MergeOptions), merges → inv c →
    inv (c.change n (.merge c.exports bytes options))
  unregister : ∀ {c : Catalog} (n : Nat) {m : ModuleId}, clears m → inv c →
    inv (c.change n (.unregister m))
  first : ∀ {c : Catalog} {n : Nat} {type : TypeKey} (owner : ModuleId), inv c →
    (c.registry n).anyByHash? (u.hash type) = none →
    frees n ((c.registry n).insertSkeleton u type owner).1
  further : ∀ {c : Catalog} {n : Nat} {type : TypeKey} {h : TypeHandle} {row : Row}, inv c →
    opens type → (c.registry n).anyByHash? (u.hash type) = some (h, row) → frees n h

namespace Law

/-- Whether an action is none of those that the law forbids. -/
def allows (law : Law u) : Action → Prop
  | .extend type _ => law.opens type
  | .setUp name _ => law.clears (.ofName name)
  | .request (.module (.unregister m)) => law.clears m
  | .request (.image (.merge ..)) => law.merges
  | _ => True

/-- A step after which at least as many descriptions are open ends none. -/
theorem keep (law : Law u) (inv : law.inv c) (move : Move u c d)
    (open_ : c.passes.length ≤ d.passes.length) : law.inv d := by
  refine law.move inv move (move.collects open_) fun p top => ?_
  rw [top, List.length_cons] at open_
  omega

/-- That a state can be reached, by steps in which descriptions enter what is named in their
attributes, is kept whatever a script does. -/
def annotated (u : Universe) : Law u where
  inv c := Relation.ReflTransGen (fun a b => Step u a b ∧ a.AnnotatesAll b) {} c
  frees _ _ := True
  opens _ := True
  merges := True
  clears _ := True
  move before move annotates _ := .tail before ⟨.move move, annotates⟩
  merge n bytes options _ before :=
    have overhaul := .merge (n := n) bytes options
    .tail before ⟨.overhaul overhaul, overhaul.collects⟩
  unregister n m _ before :=
    have overhaul := .unregister (n := n) m
    .tail before ⟨.overhaul overhaul, overhaul.collects⟩
  first _ _ _ := trivial
  further _ _ _ := trivial

theorem annotated_allows (u : Universe) (action : Action) : (annotated u).allows action := by
  unfold allows
  split <;> exact trivial

end Law

end Catalog

end TypeCatalog
