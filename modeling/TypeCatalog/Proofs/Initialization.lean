import TypeCatalog.Proofs.ModuleEvents

/-!
The life of a module over whole scripts. The interpreter is followed by the list of the set-ups that
it completes and of the modules that it removes, in the order in which it does so, those within
descriptions and within other set-ups included. A module is initialized in a registry as the latest
of its events there says; and a set-up runs its body exactly when the module is not initialized.
-/
namespace TypeCatalog.Script

open ModuleEvent Play

/-- The event with which the set-up of a module ends, by how its body has come out. -/
def endingEvents (n : Nat) (m : ModuleId) : Except Halt Unit → List ModuleEvent
  | .ok _ => [.completed n m]
  | .error (.failed _) => [.removed n m]
  | .error _ => []

def settingUpEvents (n : Nat) (m : ModuleId) (name : String) (body : Play Unit)
    (events : Session → List ModuleEvent) (s : Session) : List ModuleEvent :=
  if (s.registry n).isInitialized m then []
  else
    let began := s.declaring n m name
    events began ++ endingEvents n m (body.outcome began).1

-- The events of each part of the interpreter, in the order in which it runs the others.
mutual

def registerEvents (w : World) (depth n : Nat) (owner : ModuleId) (type : TypeKey) (s : Session) :
    List ModuleEvent :=
  match depth with
  | 0 => []
  | depth + 1 =>
    match (s.registry n).anyByHash? (w.types.hash type) with
    | some _ => []
    | none =>
      let owner := ownerOf w.types type owner
      let handle := ((s.registry n).insertSkeleton w.types type owner).1
      describeEvents w depth ⟨n, type, handle, owner⟩
        ((w.describe type).wanted (s.registry n).config)
        (s.changed n (.skeleton w.types type owner))
termination_by structural depth

def describeEvents (w : World) (depth : Nat) (p : Pass) (decls : List Decl) (s : Session) :
    List ModuleEvent :=
  match depth with
  | 0 => []
  | depth + 1 => eventsOfFold (declare w depth p) (declareEvents w depth p) decls {} s
termination_by structural depth

def declareEvents (w : World) (depth : Nat) (p : Pass) (decl : Decl) (s : Session) :
    List ModuleEvent :=
  match depth with
  | 0 => []
  | depth + 1 =>
    let need (type : TypeKey) : Play Unit := discard (register w depth p.registry p.owner type)
    let events (type : TypeKey) := registerEvents w depth p.registry p.owner type
    match decl with
    | .field _ target .. => events target s
    | .property name target .. => afterEvents (p.intern name) (fun _ => events target) s
    | .base target _ => events target s
    | .method _ _ params result .. =>
      thenEvents (params.forM need) (eventsOfEach need events params) (fun _ => events result) s
    | .constructor params .. =>
      thenEvents (params.forM need) (eventsOfEach need events params) (fun _ => events p.type) s
    | .run steps => eventsOfEach (tellStep w depth) (stepEvents w depth) steps s
    | .setName _ | .annotate .. | .enumValue .. | .probe | .panic => []
termination_by structural depth

def functionEvents (w : World) (depth n : Nat) (owner : ModuleId) (source : FunctionSource)
    (s : Session) : List ModuleEvent :=
  match depth with
  | 0 => []
  | depth + 1 =>
    let need (type : TypeKey) : Play Unit := discard (register w depth n owner type)
    let events (type : TypeKey) := registerEvents w depth n owner type
    thenEvents (source.params.forM need) (eventsOfEach need events source.params)
      (fun _ => events source.result) s
termination_by structural depth

def itemEvents (w : World) (depth n : Nat) (name : String) (item : SetUp) (s : Session) :
    List ModuleEvent :=
  match depth with
  | 0 => []
  | depth + 1 =>
    match item with
    | .register type => registerEvents w depth n (.ofName name) type s
    | .function source => functionEvents w depth n (.ofName name) source s
    | .run steps => eventsOfEach (tellStep w depth) (stepEvents w depth) steps s
    | .fail _ | .invalid _ => []
termination_by structural depth

def actEvents (w : World) (depth n : Nat) (action : Action) (s : Session) : List ModuleEvent :=
  match depth with
  | 0 => []
  | depth + 1 =>
    match action with
    | .request request => request.events n
    | .register type owner => registerEvents w depth n owner type s
    | .extend type decls =>
      thenEvents (register w depth n .host type) (registerEvents w depth n .host type)
        (fun handle t =>
          let owner := (((t.registry n).row? handle).map Row.owner).getD .host
          describeEvents w depth ⟨n, type, handle, owner⟩ decls t) s
    | .function source owner => functionEvents w depth n owner source s
    | .setUp name items =>
      settingUpEvents n (.ofName name) name (items.forM (setUpItem w depth n name))
        (eventsOfEach (setUpItem w depth n name) (itemEvents w depth n name) items) s
termination_by structural depth

def stepEvents (w : World) (depth : Nat) (step : Step) (s : Session) : List ModuleEvent :=
  match depth with
  | 0 => []
  | depth + 1 =>
    let named := Session.named { s with told := [] } step.registry
    actEvents w depth named.1 step.action named.2
termination_by structural depth

end

section

variable {n : Nat} {m : ModuleId} {name : String} {body : Play Unit} {s : Session}

/-- A set-up does nothing if the module is initialized. Otherwise it declares the module and runs
the body. A body that comes to its end has the module marked, one that fails has it removed, and one
that is cut short by something else leaves it as it is then. -/
theorem outcome_settingUp (n : Nat) (m : ModuleId) (name : String) (body : Play Unit)
    (s : Session) : (settingUp n m name body).outcome s =
      if (s.registry n).isInitialized m then (.ok (.flag false), s)
      else match body.outcome (s.declaring n m name) with
        | (.ok (), t) => (.ok (.flag true), t.changed n (.markInitialized m))
        | (.error (.failed cause), t) => (.error (.failed cause), t.changed n (.unregister m))
        | (.error halt, t) => (.error halt, t) := by
  have got : (Play.registry n).outcome s = (.ok (s.registry n), s) := rfl
  have declared : (Play.changeRegistry n fun r => ((), r.declareModule m name)).outcome s =
    (.ok (), s.declaring n m name) := rfl
  rw [settingUp, outcome_bind_ok got]
  split
  · rfl
  · rw [outcome_bind_ok declared]
    rcases ran : body.outcome (s.declaring n m name) with ⟨answer, t⟩
    cases answer with
    | ok done =>
      rw [outcome_bind_ok (outcome_tryCatch_ok ran)]
      rfl
    | error halt =>
      cases halt <;> exact outcome_bind_error (outcome_tryCatch_error ran)

theorem tracked_settingUp {events : Session → List ModuleEvent}
    (tracked : Tracked (n + 1) body events) :
    Tracked (n + 1) (settingUp n m name body) (settingUpEvents n m name body events) := by
  intro s numbered within
  rw [outcome_settingUp, settingUpEvents]
  split
  · exact .refl numbered
  · have declared := Session.tracks_changed numbered within (.declare m name)
    have began : s.Tracks [] (s.declaring n m name) := declared
    have enough := Nat.le_trans within began.longer
    have ran := began.trans (tracked _ began.numbered enough)
    dsimp only
    rcases ended : body.outcome (s.declaring n m name) with ⟨answer, t⟩
    rw [ended] at ran
    have changed := Session.tracks_changed ran.numbered (Nat.le_trans within ran.longer)
    cases answer with
    | ok done => exact ran.trans (changed (.markInitialized m))
    | error halt =>
      cases halt with
      | failed cause => exact ran.trans (changed (.unregister m))
      | panic => exact ran.trans (.refl ran.numbered)
      | exhausted => exact ran.trans (.refl ran.numbered)

end

/-- What the events of each part of the interpreter say when calls may be nested to a depth. -/
structure TrackedAt (w : World) (depth : Nat) : Prop where
  register : ∀ n owner type,
    Tracked (n + 1) (register w depth n owner type) (registerEvents w depth n owner type)
  describe : ∀ (p : Pass) decls,
    Tracked (p.registry + 1) (describe w depth p decls) (describeEvents w depth p decls)
  declare : ∀ (p : Pass) d decl,
    Tracked (p.registry + 1) (declare w depth p d decl) (declareEvents w depth p decl)
  addFunction : ∀ n owner source,
    Tracked (n + 1) (addFunction w depth n owner source) (functionEvents w depth n owner source)
  setUpItem : ∀ n name item,
    Tracked (n + 1) (setUpItem w depth n name item) (itemEvents w depth n name item)
  act : ∀ n action, Tracked (n + 1) (act w depth n action) (actEvents w depth n action)
  tellStep : ∀ step, Tracked 0 (tellStep w depth step) (stepEvents w depth step)

variable {w : World} {depth : Nat}

theorem trackedAt_zero (w : World) : TrackedAt w 0 where
  register n owner type := by
    rw [Script.register]
    exact (still_throw _).idle
  describe p decls := by
    rw [Script.describe]
    exact (still_throw _).idle
  declare p d decl := by
    rw [Script.declare.eq_def]
    exact (still_throw _).idle
  addFunction n owner source := by
    rw [Script.addFunction]
    exact (still_throw _).idle
  setUpItem n name item := by
    rw [Script.setUpItem.eq_def]
    exact (still_throw _).idle
  act n action := by
    rw [Script.act.eq_def]
    exact (still_throw _).idle
  tellStep step := by
    rw [Script.tellStep]
    exact (still_tell _).idle

namespace TrackedAt

theorem need (tracked : TrackedAt w depth) (n : Nat) (owner : ModuleId) (type : TypeKey) :
    Tracked (n + 1) (discard (Script.register w depth n owner type))
      (registerEvents w depth n owner type) := (tracked.register n owner type).wrap fun _ => ()

theorem register_succ (tracked : TrackedAt w depth) (n : Nat) (owner : ModuleId) (type : TypeKey) :
    Tracked (n + 1) (Script.register w (depth + 1) n owner type)
      (registerEvents w (depth + 1) n owner type) := by
  intro s numbered within
  have got : (Play.registry n).outcome s = (.ok (s.registry n), s) := rfl
  rw [Script.register, registerEvents, outcome_bind_ok got]
  cases absent : (s.registry n).anyByHash? (w.types.hash type) with
  | some found => exact .refl numbered
  | none =>
    -- A row is given up without an event when its description halts.
    let owner := ownerOf w.types type owner
    let handle := ((s.registry n).insertSkeleton w.types type owner).1
    let decls := (w.describe type).wanted (s.registry n).config
    have added : (Play.changeRegistry n (·.insertSkeleton w.types type owner)).outcome s =
      (.ok handle, s.changed n (.skeleton w.types type owner)) := rfl
    have began := Session.tracks_changed numbered within (.skeleton w.types type owner)
    have cleaned : Idle (n + 1) (changeRegistry n fun r => ((), r.discardPending handle)) :=
      tracked_changeRegistry (.discard handle) fun _ => rfl
    have described := (tracked.describe ⟨n, type, handle, owner⟩ decls).tryCatch fun halt =>
      cleaned.bind fun _ => (still_throw halt).idle
    dsimp only
    rw [outcome_bind_ok added]
    exact began.trans
      (described.wrap (fun _ => handle) _ began.numbered (Nat.le_trans within began.longer))

theorem describe_succ (tracked : TrackedAt w depth) (p : Pass) (decls : List Decl) :
    Tracked (p.registry + 1) (Script.describe w (depth + 1) p decls)
      (describeEvents w (depth + 1) p decls) := by
  rw [Script.describe]
  have declared := tracked_foldlM (tracked.declare p) decls {}
  exact declared.then_idle fun draft =>
    tracked_changeRegistry (.commit p.handle draft) fun _ => rfl

theorem declare_succ (tracked : TrackedAt w depth) (p : Pass) (d : Draft) (decl : Decl) :
    Tracked (p.registry + 1) (Script.declare w (depth + 1) p d decl)
      (declareEvents w (depth + 1) p decl) := by
  have need := tracked.need p.registry p.owner
  rw [Script.declare.eq_def]
  cases decl with
  | setName name => exact (p.idle_intern name).wrap _
  | annotate key value => exact (p.idle_note key value).wrap _
  | enumValue name value => exact (p.idle_intern name).wrap _
  | field name target lens offset notes =>
    exact (need target).then_idle fun _ => p.idle_addField d name target lens offset notes
  | property name target getter setter notes =>
    refine (p.idle_intern name).then fun name => (need target).then_idle fun _ => ?_
    exact p.idle_addProperty d name target getter setter notes
  | base target lens => exact (need target).wrap _
  | method form name params result body notes =>
    refine (tracked_forM need params).bind fun _ => (need result).then_idle fun _ => ?_
    exact p.idle_addMethod d form name params result body notes
  | constructor params make notes =>
    refine (tracked_forM need params).bind fun _ => (need p.type).then_idle fun _ => ?_
    exact p.idle_addConstructor d params make notes
  | probe =>
    exact (still_registry _).idle.bind fun r => (still_tell _).idle.wrap _
  | panic => exact (still_throw _).idle
  | run steps =>
    exact ((tracked_forM tracked.tellStep steps).mono (Nat.zero_le _)).wrap _

theorem addFunction_succ (tracked : TrackedAt w depth) (n : Nat) (owner : ModuleId)
    (source : FunctionSource) :
    Tracked (n + 1) (Script.addFunction w (depth + 1) n owner source)
      (functionEvents w (depth + 1) n owner source) := by
  have need := tracked.need n owner
  rw [Script.addFunction]
  refine (tracked_forM need source.params).bind fun _ => (need source.result).then_idle fun _ => ?_
  refine idle_fresh.bind fun number => ?_
  have added : ∀ callable, Idle (n + 1) (Play.changeRegistry n fun r =>
      r.addFunction owner source.name (source.params.map w.types.hash) (w.types.hash source.result)
        callable) :=
    fun callable =>
      tracked_changeRegistry (.addFunction owner source.name _ _ callable) fun _ => rfl
  refine (added _).bind fun answer => ?_
  split
  · exact (still_pure _).idle
  · exact (still_fail _).idle

theorem setUpItem_succ (tracked : TrackedAt w depth) (n : Nat) (name : String) (item : SetUp) :
    Tracked (n + 1) (Script.setUpItem w (depth + 1) n name item)
      (itemEvents w (depth + 1) n name item) := by
  rw [Script.setUpItem.eq_def]
  cases item with
  | register type => exact (tracked.register n _ type).then_idle fun _ => (still_tell _).idle
  | function source => exact (tracked.addFunction n _ source).then_idle fun _ => (still_tell _).idle
  | fail message => exact (still_fail _).idle
  | invalid message => exact (still_fail _).idle
  | run steps => exact (tracked_forM tracked.tellStep steps).mono (Nat.zero_le _)

theorem act_succ (tracked : TrackedAt w depth) (n : Nat) (action : Action) :
    Tracked (n + 1) (Script.act w (depth + 1) n action) (actEvents w (depth + 1) n action) := by
  cases action with
  | request request =>
    intro s numbered within
    rw [Script.act]
    obtain ⟨t, effect, same⟩ := request.does_answer s
    exact (effect.tracks numbered within).of_bare same
  | register type owner =>
    rw [Script.act]
    exact (tracked.register n owner type).wrap _
  | extend type decls =>
    rw [Script.act]
    refine (tracked.register n .host type).bind fun handle => ?_
    intro s numbered within
    have got : (Play.registry n).outcome s = (.ok (s.registry n), s) := rfl
    rw [outcome_bind_ok got]
    exact (tracked.describe _ decls).wrap (fun _ => Reply.type ⟨n, handle⟩) s numbered within
  | function source owner =>
    rw [Script.act]
    exact (tracked.addFunction n owner source).wrap _
  | setUp name items =>
    rw [act_setUp]
    exact tracked_settingUp (tracked_forM (tracked.setUpItem n name) items)

theorem tellStep_succ (tracked : TrackedAt w depth) (step : Step) :
    Tracked 0 (Script.tellStep w (depth + 1) step) (stepEvents w (depth + 1) step) := by
  intro s numbered _
  let emptied : Session := { s with told := [] }
  let n := (emptied.named step.registry).1
  have got : (get : Play Session).outcome s = (.ok s, s) := rfl
  have cleared : (modify fun s : Session => { s with told := [] } : Play PUnit).outcome s =
    (.ok ⟨⟩, emptied) := rfl
  have began : s.Tracks [] emptied := (Session.Tracks.refl numbered).congr rfl rfl
  obtain ⟨named, within⟩ := emptied.tracks_named numbered step.registry
  have acted : Tracked (n + 1) (tryCatch (Except.ok <$> Script.act w depth n step.action)
      fun halt => Pure.pure (.error halt)) (actEvents w depth n step.action) :=
    ((tracked.act n step.action).wrap _).tryCatch fun _ => (still_pure _).idle
  have told : ∀ answer, Idle (n + 1) (modify fun t : Session =>
      { t with told := s.told ++ [.step answer t.told] }) :=
    fun answer => Still.idle fun _ => rfl
  rw [Script.tellStep, outcome_bind_ok got, outcome_bind_ok cleared,
    outcome_bind_ok (outcome_named step.registry emptied)]
  refine (began.trans named).trans ((acted.then_idle fun answer => ?_) _ named.numbered within)
  split
  · split
    · exact Idle.bind (x := modify _) (Still.idle fun s => keep_bare s _ _) fun _ => told _
    · exact told _
  · exact told _

theorem succ (tracked : TrackedAt w depth) : TrackedAt w (depth + 1) where
  register := tracked.register_succ
  describe := tracked.describe_succ
  declare := tracked.declare_succ
  addFunction := tracked.addFunction_succ
  setUpItem := tracked.setUpItem_succ
  act := tracked.act_succ
  tellStep := tracked.tellStep_succ

end TrackedAt

theorem trackedAt (w : World) (depth : Nat) : TrackedAt w depth := by
  induction depth with
  | zero => exact trackedAt_zero w
  | succ depth ih => exact ih.succ

/-- Whether an action neither sets a module up nor removes one. -/
def SparesModules : Action → Prop
  | .setUp .. => False
  | .request (.module (.unregister _)) => False
  | _ => True

/-- Whether all actions within an action may be taken. -/
def Action.Within (may : Action → Prop) : Action → Prop
  | .extend _ decls => allDecls may decls
  | .setUp _ items => allItems may items
  | _ => True

theorem Action.all_iff {may : Action → Prop} {action : Action} :
    action.All may ↔ may action ∧ action.Within may := by
  cases action <;> simp [Action.All, Action.Within]

structure SilentAt (w : World) (depth : Nat) : Prop where
  register : ∀ n owner type s, registerEvents w depth n owner type s = []
  describe : ∀ p decls s, allDecls SparesModules decls → describeEvents w depth p decls s = []
  declare : ∀ p (decl : Decl) s, decl.All SparesModules → declareEvents w depth p decl s = []
  addFunction : ∀ n owner source s, functionEvents w depth n owner source s = []
  setUpItem : ∀ n name (item : SetUp) s, item.All SparesModules →
    itemEvents w depth n name item s = []
  act : ∀ n (action : Action) s, action.All SparesModules → actEvents w depth n action s = []
  tellStep : ∀ (step : Step) s, step.All SparesModules → stepEvents w depth step s = []

namespace SilentAt

theorem steps (silent : SilentAt w depth) {steps : List Step}
    (spared : allSteps SparesModules steps) (s : Session) :
    eventsOfEach (Script.tellStep w depth) (stepEvents w depth) steps s = [] :=
  have each := allSteps_iff.mp spared
  eventsOfEach_nil (fun step listed s => silent.tellStep step s (each step listed)) s

theorem needs (silent : SilentAt w depth) (n : Nat) (owner : ModuleId) (types : List TypeKey)
    (type : TypeKey) (s : Session) :
    thenEvents (types.forM fun type => discard (Script.register w depth n owner type))
      (eventsOfEach (fun type => discard (Script.register w depth n owner type))
        (registerEvents w depth n owner) types)
      (fun _ => registerEvents w depth n owner type) s = [] :=
  thenEvents_nil (eventsOfEach_nil (fun type _ => silent.register n owner type) s)
    fun _ => silent.register n owner type

/-- What an action on the registry of number `n` does itself is the only source of events. -/
theorem act_succ (silent : SilentAt w depth) (n : Nat) {action : Action} (s : Session)
    (within : action.Within SparesModules) {e : ModuleEvent}
    (listed : e ∈ actEvents w (depth + 1) n action s) :
    ¬ SparesModules action ∧ ∃ m, e = .completed n m ∨ e = .removed n m := by
  cases action with
  | request request =>
    rw [actEvents, Request.events, Option.mem_toList, Option.map_eq_some_iff] at listed
    obtain ⟨m, removed, rfl⟩ := listed
    refine ⟨fun spared => ?_, m, .inr rfl⟩
    rw [Request.eq_of_removed? removed] at spared
    exact spared
  | register type owner =>
    rw [actEvents, silent.register] at listed
    contradiction
  | extend type decls =>
    rw [actEvents, thenEvents_nil (silent.register n .host type s) fun _ _ =>
      silent.describe _ decls _ within] at listed
    contradiction
  | function source owner =>
    rw [actEvents, silent.addFunction] at listed
    contradiction
  | setUp name items =>
    refine ⟨id, .ofName name, ?_⟩
    have none := eventsOfEach_nil (f := Script.setUpItem w depth n name) fun item there s =>
      silent.setUpItem n name item s (allItems_iff.mp within item there)
    rw [actEvents, settingUpEvents] at listed
    -- The hash of the name stays a variable, so that nothing below evaluates it.
    generalize ModuleId.ofName name = m at listed
    split at listed
    · contradiction
    · dsimp only at listed
      rw [none, List.nil_append] at listed
      unfold endingEvents at listed
      split at listed
      · exact .inl (List.mem_singleton.mp listed)
      · exact .inr (List.mem_singleton.mp listed)
      · contradiction

theorem succ (silent : SilentAt w depth) (spared : w.All SparesModules) :
    SilentAt w (depth + 1) where
  register n owner type s := by
    rw [registerEvents]
    split
    · rfl
    · exact silent.describe _ _ _ (spared.wanted type _)
  describe p decls s within := by
    rw [describeEvents]
    refine eventsOfFold_nil (fun decl listed s => ?_) _ s
    exact silent.declare p decl s (allDecls_iff.mp within decl listed)
  declare p decl s within := by
    cases decl with
    | field _ target _ _ _ => exact silent.register p.registry p.owner target s
    | property _ target _ _ _ =>
      rw [declareEvents]
      exact afterEvents_nil fun _ => silent.register p.registry p.owner target
    | base target _ => exact silent.register p.registry p.owner target s
    | method _ _ params result _ _ => exact silent.needs p.registry p.owner params result s
    | constructor params _ _ => exact silent.needs p.registry p.owner params p.type s
    | run steps =>
      rw [Decl.All] at within
      exact silent.steps within s
    | _ => rfl
  addFunction n owner source s := silent.needs n owner source.params source.result s
  setUpItem n name item s within := by
    cases item with
    | register type => exact silent.register n _ type s
    | function source => exact silent.addFunction n _ source s
    | run steps =>
      rw [SetUp.All] at within
      exact silent.steps within s
    | _ => rfl
  act n action s within := by
    obtain ⟨spared, inner⟩ := Action.all_iff.mp within
    refine List.eq_nil_iff_forall_not_mem.mpr fun e listed => ?_
    exact (silent.act_succ n s inner listed).1 spared
  tellStep step s within := by
    obtain ⟨name, keepAs, action⟩ := step
    rw [Step.All] at within
    exact silent.act _ action _ within

end SilentAt

theorem silentAt_zero (w : World) : SilentAt w 0 :=
  ⟨fun _ _ _ _ => rfl, fun _ _ _ _ => rfl, fun _ _ _ _ => rfl, fun _ _ _ _ => rfl,
    fun _ _ _ _ _ => rfl, fun _ _ _ _ => rfl, fun _ _ _ => rfl⟩

theorem silentAt (spared : w.All SparesModules) (depth : Nat) : SilentAt w depth := by
  induction depth with
  | zero => exact silentAt_zero w
  | succ depth ih => exact ih.succ spared

/-- What an action does itself to the modules of one registry leaves those of all others alone, and
an action that is no set-up and no removal leaves those of all registries alone. -/
theorem isInitialized_act {s : Session} (numbered : s.Numbered) (spared : w.All SparesModules)
    {n : Nat} (present : n < s.registries.length) {action : Action}
    (within : action.Within SparesModules) {k : Nat} (m : ModuleId)
    (apart : k ≠ n ∨ SparesModules action) :
    (((act w depth n action).outcome s).2.registry k).isInitialized m =
      (s.registry k).isInitialized m := by
  have tracks := (trackedAt w depth).act n action s numbered present
  have others : ∀ e ∈ actEvents w depth n action s, e.isOf k m = false := by
    intro e listed
    cases depth with
    | zero => contradiction
    | succ depth =>
      obtain ⟨touches, m', own⟩ := (silentAt spared depth).act_succ n s within listed
      have other := apart.resolve_right touches
      rcases own with rfl | rfl <;> simp [isOf, Ne.symm other]
  rw [tracks.flags, initializedAfter, latest?_eq_none others]
  rfl

/-- However set-ups, removals of modules and other steps follow one another and lie within one
another: a module is initialized in a registry exactly when its latest event there, among completed
set-ups and removals, is a completed set-up; a set-up runs its body exactly when the module is not
initialized; and what is done to one registry leaves the modules of the others as they are. -/
theorem initialized_iff_latest_completed (w : World) (depth : Nat) {s : Session}
    (numbered : s.Numbered) (steps : List Step) :
    let t := ((steps.forM (tellStep w depth)).outcome s).2
    let log := eventsOfEach (tellStep w depth) (stepEvents w depth) steps s
    (∀ n m, (t.registry n).isInitialized m = true ↔
      latest? n m log = some (.completed n m) ∨
        latest? n m log = none ∧ (s.registry n).isInitialized m = true) ∧
    (∀ d n name items, (act w (d + 1) n (.setUp name items)).outcome t =
      let m := ModuleId.ofName name
      if (t.registry n).isInitialized m then (.ok (.flag false), t)
      else match (items.forM (setUpItem w d n name)).outcome (t.declaring n m name) with
        | (.ok (), v) => (.ok (.flag true), v.changed n (.markInitialized m))
        | (.error (.failed cause), v) => (.error (.failed cause), v.changed n (.unregister m))
        | (.error halt, v) => (.error halt, v)) ∧
    (w.All SparesModules → ∀ d n action, n < t.registries.length → action.Within SparesModules →
      ∀ k m, k ≠ n ∨ SparesModules action →
        (((act w d n action).outcome t).2.registry k).isInitialized m =
          (t.registry k).isInitialized m) := by
  intro t log
  have tracks : s.Tracks log t :=
    tracked_forM (trackedAt w depth).tellStep steps s numbered (Nat.zero_le _)
  refine ⟨fun n m => ?_, fun d n name items => ?_, fun spared d n action present within k m => ?_⟩
  · rw [tracks.flags, initializedAfter_iff]
  · rw [act_setUp]
    exact outcome_settingUp n (.ofName name) name _ t
  · exact isInitialized_act tracks.numbered spared present within m

/-- A module that has been set up, removed and failed to be set up once more is not initialized,
while its set-up in another registry lasts. -/
theorem removed_here_initialized_elsewhere :
    let w := describing []
    let m := ModuleId.ofName "plug"
    let setUp (registry : String) (items : List SetUp) : Step :=
      .mk registry none (.setUp "plug" items)
    let steps : List Step :=
      [setUp "a" [], setUp "a" [.fail "boom"], .mk "a" none (.request (.module (.unregister m))),
        setUp "b" [], setUp "a" [.fail "boom"]]
    let t := ((steps.forM (tellStep w 8)).outcome {}).2
    eventsOfEach (tellStep w 8) (stepEvents w 8) steps {} =
        [.completed 0 m, .removed 0 m, .completed 1 m, .removed 0 m] ∧
      (t.registry 0).isInitialized m = false ∧ (t.registry 1).isInitialized m = true ∧
      (((act w 8 0 (.setUp "plug" [])).outcome t).2.registry 1).isInitialized m = true := by
  intro w m setUp steps t
  have empty : Session.Numbered {} := fun _ _ found => nomatch found
  obtain ⟨flags, -, apart⟩ := initialized_iff_latest_completed w 8 empty steps
  have log : eventsOfEach (tellStep w 8) (stepEvents w 8) steps {} =
      [.completed 0 m, .removed 0 m, .completed 1 m, .removed 0 m] := by
    decide +kernel
  have two : 0 < t.registries.length := by decide +kernel
  have lasts : (t.registry 1).isInitialized m = true :=
    (flags 1 m).mpr (.inl (by rw [log]; simp [latest?, isOf]))
  refine ⟨log, ?_, lasts, ?_⟩
  · rw [← Bool.not_eq_true, flags 0 m, log]
    simp [latest?, isOf]
  · have kept := apart (describing_all trivial) 8 0 (.setUp "plug" []) two trivial 1 m
    exact (kept (.inl Nat.one_ne_zero)).trans lasts

end TypeCatalog.Script
