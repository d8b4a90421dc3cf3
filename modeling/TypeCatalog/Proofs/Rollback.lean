import TypeCatalog.Proofs.References
import TypeCatalog.Proofs.Registrations
import TypeCatalog.Proofs.Removal

/-!
The set-up of a module that fails. Registering types and functions, and whatever else does not merge
images, remove modules or describe a type once more, leaves every published row and every function
where it was. What the failed set-up has brought in for its module is removed again by removing the
module, so what other modules own is as it was before; but what the module had before goes too.
-/
namespace TypeCatalog

namespace Script

/-- Whether an action only adds to the registries. -/
def Adds : Action → Prop
  | .extend _ _ | .setUp _ _ => False
  | .request (.module (.unregister _)) | .request (.image (.merge ..)) => False
  | _ => True

end Script

/-- A row stays under every change that ends no published rows, unless it ends its description. -/
theorem Operation.anyRow?_after {r : Registry} {op : Operation} {h : TypeHandle} {row : Row}
    (consistent : r.Consistent) (quiet : ¬ op.IsOverhaul) (there : r.anyRow? h = some row)
    (unfinished : ¬ op.Finishes h) : (op.run r).anyRow? h = some row := by
  have elsewhere : ∀ {other old}, r.anyRow? other = some old → other ≠ h →
      h.slot.index ≠ other.slot.index := by
    intro other old alive different same
    have equal : h.slot = other.slot := SlotTable.ref_unique there alive same
    exact different (congrArg TypeHandle.mk equal).symm
  cases op.alters r with
  | nothing _ types => rwa [Registry.anyRow?, types]
  | adds u type owner types =>
    rw [Registry.anyRow?, types]
    exact SlotTable.get?_insert_of_get? consistent.free _ there
  | @publishes other old draft alive types =>
    have different : other ≠ h := fun same => unfinished (.inr ⟨draft, by rw [same]⟩)
    rw [Registry.anyRow?, types, SlotTable.get?_modify_of_ne _ (elsewhere alive different)]
    exact there
  | @removes other old alive types =>
    have different : other ≠ h := fun same => unfinished (.inl (by rw [same]))
    rw [Registry.anyRow?, types, SlotTable.get?_remove_of_ne _ (elsewhere alive different)]
    exact there
  | sweeps m types => exact absurd trivial quiet
  | merges exports bytes options => exact absurd trivial quiet

theorem Operation.functionRow?_after {r : Registry} {op : Operation} {h : FunctionHandle}
    {row : FunctionRow} (consistent : r.Consistent) (free : r.functions.FreeExact)
    (quiet : ¬ op.IsOverhaul) (there : r.functionRow? h = some row) :
    (op.run r).functionRow? h = some row := by
  rw [Registry.functionRow?] at there ⊢
  rcases op.functionTables_run consistent with
    same | ⟨owner, name, params, returnType, callable, rfl⟩ | ⟨m, rfl⟩
  · rw [show (op.run r).functions = r.functions from congrArg Prod.fst same]
    exact there
  · rcases r.functions_addFunction owner name params returnType callable with
      same | ⟨added, -, -, after⟩
    · rwa [run, same]
    · rw [run, after]
      exact SlotTable.get?_insert_of_get? free added there
  · exact absurd trivial quiet

namespace Catalog

variable {u : Universe}

/-- Whether what a registry shows is still shown by another one: the published rows and the
functions, behind their handles. -/
structure Shows (r s : Registry) : Prop where
  rows : ∀ {h row}, r.row? h = some row → s.row? h = some row
  functions : ∀ {h row}, r.functionRow? h = some row → s.functionRow? h = some row

/-- The law of what a registry has shown once: it stays, as long as no description of a row that was
published ends, and no image is merged and no module removed. -/
def Law.lasting (u : Universe) (start : Registry) (n : Nat) : Law u where
  inv c := Reachable u c ∧ Shows start (c.registry n)
  frees k h := k = n → start.row? h = none
  opens _ := False
  merges := False
  clears _ := False
  move {c d} before move _ freed := by
    refine ⟨.tail before.1 (.move move), ?_⟩
    rcases move.changed n with same | ⟨op, quiet, permitted, after⟩
    · exact same ▸ before.2
    · have consistent := before.1.allConsistent n
      rw [after]
      refine ⟨fun {h row} there => ?_, fun there => ?_⟩
      · obtain ⟨alive, published⟩ := Option.filter_eq_some_iff.mp (before.2.rows there)
        have unfinished : ¬ op.Finishes h := by
          rintro (rfl | ⟨draft, rfl⟩)
          · obtain ⟨p, top, -, here, rfl⟩ := permitted
            rw [freed p top here] at there
            contradiction
          · obtain ⟨p, top, here, rfl, -⟩ := permitted
            rw [freed p top here] at there
            contradiction
        exact Option.filter_eq_some_iff.mpr
          ⟨Operation.anyRow?_after consistent quiet alive unfinished, published⟩
      · exact Operation.functionRow?_after consistent (before.1.functionsHeld n).free quiet
          (before.2.functions there)
  merge _ _ _ forbidden := forbidden.elim
  unregister _ _ forbidden := forbidden.elim
  first {c n' type} owner before absent := by
    rintro rfl
    cases there : start.row? _ with
    | none => rfl
    | some row =>
      have alive := (Option.filter_eq_some_iff.mp (before.2.rows there)).1
      rw [Registry.anyRow?_new (before.1.allConsistent _)] at alive
      contradiction
  further _ forbidden := forbidden.elim

theorem allows_lasting (start : Registry) (n : Nat) :
    (Law.lasting u start n).allows = Script.Adds := by
  funext action
  cases action with
  | request request =>
    cases request with
    | module request => cases request <;> rfl
    | image request => cases request <;> rfl
    | _ => rfl
  | _ => rfl

end Catalog

namespace Script

open Play Catalog

variable {w : World} {depth n : Nat} {name : String} {items : List SetUp} {cause : Failure}
  {s t : Session} {passes : List OpenPass}

/-- The session in which the set-up of a module begins. -/
def Session.declaring (s : Session) (n : Nat) (m : ModuleId) (name : String) : Session :=
  { s with registries := s.registries.set n ((s.registry n).declareModule m name) }

theorem ready_declaring (reachable : Reachable w.types (s.catalog passes))
    (numbered : s.Numbered) (n : Nat) (m : ModuleId) (name : String) :
    Ready (Law.lasting w.types (s.registry n) n) passes s.registries.length
      (s.declaring n m name) := by
  have start : Ready (Law.lasting w.types (s.registry n) n) passes s.registries.length s :=
    ⟨⟨reachable, id, id⟩, numbered, Nat.le_refl _⟩
  exact tame_declare m name passes _ s (Nat.zero_le _) start

/-- What a set-up does with the run of its body. The module is a variable, so that its hash is never
evaluated. -/
def settingUp (n : Nat) (m : ModuleId) (name : String) (body : Play Unit) : Play Reply := do
  if (← Play.registry n).isInitialized m then return .flag false
  Play.changeRegistry n fun r => ((), r.declareModule m name)
  tryCatch body fun halt => do
    if let .failed _ := halt then
      discard (Play.changeRegistry n (·.unregisterModule m))
    throw halt
  Play.changeRegistry n fun r => ((), r.markInitialized m)
  return .flag true

theorem act_setUp (w : World) (depth n : Nat) (name : String) (items : List SetUp) :
    act w (depth + 1) n (.setUp name items) =
      settingUp n (.ofName name) name (items.forM (setUpItem w depth n name)) := by
  rw [act]
  rfl

variable {m : ModuleId} {body : Play Unit}

/-- A body that fails is all that happens in a failed set-up before the module is removed. -/
theorem outcome_settingUp_failed (fresh : (s.registry n).isInitialized m = false)
    (failed : body.outcome (s.declaring n m name) = (.error (.failed cause), t)) :
    (settingUp n m name body).outcome s = (.error (.failed cause), { t with
      registries := t.registries.set n ((t.registry n).unregisterModule m).2 }) := by
  have got : (Play.registry n).outcome s = (.ok (s.registry n), s) := rfl
  have declared := outcome_changeRegistry n (fun r => ((), r.declareModule m name)) s
  rw [settingUp, outcome_bind_ok got, if_neg (by rw [fresh]; exact nofun),
    outcome_bind_ok declared]
  refine outcome_bind_error ((outcome_tryCatch_error failed).trans ?_)
  rfl

/-- What is left when a module is removed after some registry's rows and functions have stayed. -/
theorem left_of_removal (shows : Shows (s.registry n) (t.registry n))
    (within : n < t.registries.length) :
    let v : Session := { t with
      registries := t.registries.set n ((t.registry n).unregisterModule m).2 }
    (v.registry n).isInitialized m = false ∧ (v.registry n).moduleInfo? m = none ∧
      (∀ h row, (v.registry n).anyRow? h = some row → row.owner ≠ m) ∧
      (∀ h row, (v.registry n).functionRow? h = some row → row.owner ≠ m) ∧
      (∀ h row, (s.registry n).row? h = some row → row.owner ≠ m →
        (v.registry n).row? h = some row) ∧
      (∀ h row, (s.registry n).functionRow? h = some row → row.owner ≠ m →
        (v.registry n).functionRow? h = some row) := by
  intro v
  have here : v.registry n = ((t.registry n).unregisterModule m).2 := by
    simp [v, Session.registry, within]
  rw [here]
  have gone : ((t.registry n).unregisterModule m).2.moduleInfo? m = none := by
    rw [Registry.moduleInfo?_unregisterModule, if_pos rfl]
  refine ⟨by rw [Registry.isInitialized, gone]; rfl, gone, fun h row there => ?_,
    fun h row there => ?_, fun h row there other => ?_, fun h row there other => ?_⟩
  · exact (Registry.anyRow?_unregisterModule.mp there).2
  · exact (Registry.functionRow?_unregisterModule.mp there).2
  · exact Registry.row?_unregisterModule.mpr ⟨shows.rows there, other⟩
  · exact Registry.functionRow?_unregisterModule.mpr ⟨shows.functions there, other⟩

/-- The set-up of a module whose body fails answers the body's failure. The module is then not
initialized and has no entry, and no type or function is owned by it. All that was published or
entered by others before is behind its handles as it was, if nothing in the body and the
descriptions does more than add to the registries. -/
theorem failed_set_up_keeps_others (reachable : Reachable w.types (s.catalog passes))
    (numbered : s.Numbered) (within : n < s.registries.length)
    (adding : w.All Adds) (added : allItems Adds items)
    (fresh : (s.registry n).isInitialized (.ofName name) = false)
    (failed : (items.forM (setUpItem w depth n name)).outcome (s.declaring n (.ofName name) name) =
      (.error (.failed cause), t)) :
    ∃ v, (act w (depth + 1) n (.setUp name items)).outcome s = (.error (.failed cause), v) ∧
      (v.registry n).isInitialized (.ofName name) = false ∧
      (v.registry n).moduleInfo? (.ofName name) = none ∧
      (∀ h row, (v.registry n).anyRow? h = some row → row.owner ≠ .ofName name) ∧
      (∀ h row, (v.registry n).functionRow? h = some row → row.owner ≠ .ofName name) ∧
      (∀ h row, (s.registry n).row? h = some row → row.owner ≠ .ofName name →
        (v.registry n).row? h = some row) ∧
      (∀ h row, (s.registry n).functionRow? h = some row → row.owner ≠ .ofName name →
        (v.registry n).functionRow? h = some row) := by
  let law := Law.lasting w.types (s.registry n) n
  have lawful : law.allows = Adds := allows_lasting (s.registry n) n
  rw [← lawful] at adding added
  have ran := tame_forM fun item listed =>
    (tameAt adding depth).setUpItem n name item (allItems_iff.mp added item listed)
  have ready := ran passes _ _ within (ready_declaring reachable numbered n (.ofName name) name)
  rw [failed] at ready
  obtain ⟨⟨-, shows⟩, -, enough⟩ := ready
  rw [act_setUp]
  exact ⟨_, outcome_settingUp_failed fresh failed,
    left_of_removal shows (Nat.lt_of_lt_of_le within enough)⟩

/-- A session in which one type has been registered for a module. -/
def oneType (owner : ModuleId) : Session :=
  ((register (describing []) 8 0 owner (.user "A")).outcome oneRegistry).2

theorem oneType_ready (owner : ModuleId) :
    Reachable (describing []).types ((oneType owner).catalog []) ∧ (oneType owner).Numbered ∧
      0 < (oneType owner).registries.length :=
  have lawful : (describing []).All (Law.annotated _).allows := describing_all trivial
  after_oneRegistry ((tameAt lawful 8).register 0 owner (.user "A"))

/-- A set-up that registers a type before it fails leaves the type of another module. -/
theorem type_of_other_module_stays :
    let s := oneType (.ofName "zoo")
    let items : List SetUp := [.register (.user "B"), .fail "boom"]
    ∃ cause v, (act (describing []) 8 0 (.setUp "plug" items)).outcome s =
        (.error (.failed cause), v) ∧
      ∃ row, (s.registry 0).row? ⟨⟨0, 0⟩⟩ = some row ∧ (v.registry 0).row? ⟨⟨0, 0⟩⟩ = some row := by
  intro s items
  obtain ⟨reachable, numbered, within⟩ := oneType_ready (.ofName "zoo")
  have adding : (describing []).All Adds := describing_all trivial
  have added : allItems Adds items := ⟨trivial, trivial, trivial⟩
  have computed : (s.registry 0).isInitialized (.ofName "plug") = false ∧
      ((s.registry 0).row? ⟨⟨0, 0⟩⟩).any (·.owner ≠ .ofName "plug") = true ∧
      ((setUpItem (describing []) 7 0 "plug" (.register (.user "B"))).outcome
        (s.declaring 0 (.ofName "plug") "plug")).1.isOk = true := by
    decide +kernel
  obtain ⟨fresh, other, registered⟩ := computed
  rcases ran : (setUpItem (describing []) 7 0 "plug" (.register (.user "B"))).outcome
    (s.declaring 0 (.ofName "plug") "plug") with ⟨answer, t⟩
  rw [ran] at registered
  cases answer with
  | error halt => contradiction
  | ok done =>
    have failed : (items.forM (setUpItem (describing []) 7 0 "plug")).outcome
        (s.declaring 0 (.ofName "plug") "plug") =
          (.error (.failed (.registration (.moduleInit "plug" "boom"))), t) := by
      refine (outcome_bind_ok ran).trans (outcome_bind_error ?_)
      rw [setUpItem]
      rfl
    obtain ⟨v, set, -, -, -, -, kept, -⟩ :=
      failed_set_up_keeps_others reachable numbered within adding added fresh failed
    obtain ⟨row, alive, stranger⟩ := (Option.any_eq_true _ _).mp other
    exact ⟨_, v, set, row, alive, kept _ row alive (of_decide_eq_true stranger)⟩

/-- A set-up that has registered nothing yet removes, when it fails, the type that was registered
for its module before. -/
theorem type_removed_by_failed_set_up :
    let m := ModuleId.ofName "plug"
    let s := oneType m
    let ran := (act (describing []) 8 0 (.setUp "plug" [.fail "boom"])).outcome s
    Reachable (describing []).types (s.catalog []) ∧ s.Numbered ∧
      (describing []).All Adds ∧ (s.registry 0).isInitialized m = false ∧
      (s.registry 0).isAlive ⟨⟨0, 0⟩⟩ = true ∧ ran.1.isOk = false ∧
      (ran.2.registry 0).isAlive ⟨⟨0, 0⟩⟩ = false := by
  intro m s ran
  obtain ⟨reachable, numbered, -⟩ := oneType_ready m
  exact ⟨reachable, numbered, describing_all trivial, by decide +kernel⟩

end Script

end TypeCatalog
