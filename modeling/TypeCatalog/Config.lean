import TypeCatalog.ModuleId

/-! Settings of a registry and of one merge. -/
namespace TypeCatalog

/-- What a merge does with a type that is already present. -/
inductive ConflictPolicy where
  | reject
  | skip
  | replace
deriving DecidableEq, Inhabited

def ConflictPolicy.name : ConflictPolicy → String
  | .reject => "Reject"
  | .skip => "Skip"
  | .replace => "Replace"

structure RegistryConfig where
  policy : ConflictPolicy := .skip
  crossModule : Bool := false
  collectConflicts : Bool := true
  defaultConstructors : Bool := true
deriving DecidableEq, Inhabited

structure MergeOptions where
  policy : ConflictPolicy := .skip
  crossModule : Bool := false
  collectConflicts : Bool := false
  /-- The owner of merged rows, in place of the one that the image names. -/
  owner : Option ModuleId := none
deriving DecidableEq, Inhabited

def RegistryConfig.mergeOptions (c : RegistryConfig) : MergeOptions :=
  { policy := c.policy, crossModule := c.crossModule, collectConflicts := c.collectConflicts }

def recordText (name : String) (fields : List (String × String)) (more : Bool) : String :=
  let shown := fields.map fun (field, value) => field ++ ": " ++ value
  name ++ " \x7b " ++ ", ".intercalate (shown ++ if more then [".."] else []) ++ " \x7d"

def boolText (b : Bool) : String := if b then "true" else "false"

def RegistryConfig.debugText (c : RegistryConfig) : String :=
  recordText "RegistryConfig"
    [("conflict_policy", c.policy.name), ("cross_module_replace", boolText c.crossModule),
      ("collect_conflicts", boolText c.collectConflicts),
      ("default_constructors", boolText c.defaultConstructors)] false

def MergeOptions.debugText (o : MergeOptions) : String :=
  let owner := match o.owner with
    | some m => "Some(" ++ m.text ++ ")"
    | none => "None"
  recordText "MergeOptions"
    [("policy", o.policy.name), ("allow_any_module", boolText o.crossModule),
      ("collect_conflicts", boolText o.collectConflicts), ("module_override", owner)] false

end TypeCatalog
