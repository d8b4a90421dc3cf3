import TypeCatalog.Proofs.Handles
import TypeCatalog.Proofs.Ownership

/-!
Names while descriptions run. A description holds the names that it has entered as long as its row
is there, so what it adds to the row in the end is held by the row's owner. Its row can only go
when the module or the type is removed or replaced within it, and then nothing is added. That a
later row is not taken for the one that went needs one of two things: that rows of a registry are
not replaced and removed while descriptions run on it, or that no slot runs out of generations.
-/
namespace TypeCatalog

/-- Whether the row that a pass describes is there and belongs to the pass's owner. -/
def Script.Pass.Owns (p : Script.Pass) (r : Registry) : Prop :=
  ∃ row, r.anyRow? p.handle = some row ∧ row.owner = p.owner

/-- The names that a pass has entered stay until it ends. -/
structure OpenPass.Bound (p : OpenPass) (c : Catalog) : Prop where
  owned : p.pass.owner = .host ∨ p.pass.Owns (c.registry p.pass.registry)
  held : ∀ name ∈ p.names, (c.registry p.pass.registry).names.Holds p.pass.owner name

/-- Whether a step ends the row in the slot that a pass describes. -/
def Script.Pass.Ends (p : Script.Pass) (c d : Catalog) : Prop :=
  (d.registry p.registry).types.generationAt p.handle.slot.index =
    (c.registry p.registry).types.generationAt p.handle.slot.index + 1

theorem SlotTable.generationAt_ne {ρ : Type} {a b : SlotTable ρ} {index : Nat}
    (same : b.generationAt index = a.generationAt index) :
    b.generationAt index ≠ a.generationAt index + 1 := by
  intro next
  have none := endings_of_same same
  have one := endings_of_next next
  omega

namespace Catalog

variable {u : Universe} {c d : Catalog}

/-- A bound pass stays bound, unless its row ends. -/
theorem bound_of_changed {p : OpenPass} {kind : Operation → Prop} (bound : p.Bound c)
    (consistent : (c.registry p.pass.registry).Consistent)
    (changed : c.ChangedBy kind d p.pass.registry) :
    p.Bound d ∨ (p.pass.owner ≠ .host ∧ p.pass.Owns (c.registry p.pass.registry) ∧
      p.pass.Ends c d) := by
  rcases changed with same | ⟨op, _, _, after⟩
  · exact .inl ⟨same ▸ bound.owned, same ▸ bound.held⟩
  · by_cases host : p.pass.owner = .host
    · refine .inl ⟨.inl host, fun name listed => ?_⟩
      rw [after]
      exact Operation.holds_run consistent (bound.held name listed) fun _ => host
    · have owns := bound.owned.resolve_left host
      obtain ⟨row, alive, own⟩ := owns
      obtain ⟨present, generation⟩ := SlotTable.get?_eq_some_iff.mp alive
      by_cases removed : op = .unregister p.pass.owner
      · refine .inr ⟨host, ⟨row, alive, own⟩, ?_⟩
        rw [Script.Pass.Ends, after, removed, Operation.run, Registry.types_unregisterModule,
          SlotTable.generationAt_sweep present, if_pos (by simpa using own)]
      · rcases Operation.types_succeed consistent op p.pass.handle.slot.index with
          ⟨same, kept⟩ | ended
        · obtain ⟨later, there, grown⟩ := kept row present
          refine .inl ⟨.inr ⟨later, ?_, grown.owner.trans own⟩, fun name listed => ?_⟩
          · rw [after]
            exact SlotTable.get?_eq_some_iff.mpr ⟨there, same.trans generation⟩
          · rw [after]
            exact Operation.holds_run consistent (bound.held name listed) fun same =>
              absurd same removed
        · exact .inr ⟨host, ⟨row, alive, own⟩, by rw [Script.Pass.Ends, after, ended]⟩

/-- A pass that is open after a step was open before, with at most one name less, or it is bound. -/
def Continues (c d : Catalog) (p : OpenPass) : Prop :=
  (∃ q ∈ c.passes, q.pass = p.pass ∧ ∀ name ∈ p.names, name ∈ q.names ∨
    (d.registry p.pass.registry).names.Holds p.pass.owner name) ∨ p.Bound d

theorem continues_of_mem {p : OpenPass} (running : p ∈ c.passes) : c.Continues d p :=
  .inl ⟨p, running, rfl, fun _ listed => .inl listed⟩

theorem bound_firstPass {n : Nat} {type : TypeKey} {owner : ModuleId}
    (within : n < c.registries.length) (free : (c.registry n).types.FreeExact)
    (after : d.registries = (c.change n (.skeleton u type owner)).registries) :
    (c.firstPass u n type owner).Bound d := by
  refine ⟨.inr ⟨(c.registry n).skeletonRow u type owner, ?_, rfl⟩, fun _ listed => by cases listed⟩
  exact anyRow?_firstPass within free after

theorem bound_laterPass (c : Catalog) (n : Nat) (type : TypeKey) (h : TypeHandle)
    (same : d.registries = c.registries) : (c.laterPass n type h).Bound d := by
  have here : d.registry n = c.registry n := by
    unfold registry
    rw [same]
  refine ⟨?_, fun _ listed => by cases listed⟩
  simp only [laterPass, here]
  cases found : (c.registry n).row? h with
  | none => exact .inl rfl
  | some row => exact .inr ⟨row, here ▸ (Option.filter_eq_some_iff.mp found).1, by simp⟩

def Within (c : Catalog) : Prop := ∀ p ∈ c.passes, p.pass.registry < c.registries.length

theorem goes_on {p : OpenPass} (within : c.Within) (running : p ∈ c.passes)
    (count : c.registries.length ≤ d.registries.length) :
    p.pass.registry < d.registries.length ∧ c.Continues d p :=
  ⟨Nat.lt_of_lt_of_le (within p running) count, continues_of_mem running⟩

/-- The name that a description has entered is held on behalf of its row's owner. -/
theorem continues_entering {q : OpenPass} (within : c.Within) (running : q ∈ c.passes)
    (text : String) (after : d.registries =
      (c.change q.pass.registry (.intern text q.pass.owner)).registries) :
    c.Continues d
      { q with names := q.names ++ [((c.registry q.pass.registry).intern text q.pass.owner).1] } := by
  have here : d.registry q.pass.registry =
      ((c.registry q.pass.registry).intern text q.pass.owner).2 := by
    have changed := registry_change c q.pass.registry (.intern text q.pass.owner) q.pass.registry
    rw [if_pos ⟨rfl, within q running⟩] at changed
    unfold registry
    rw [after]
    exact changed
  refine .inl ⟨q, running, rfl, fun name entered => ?_⟩
  rcases List.mem_append.mp entered with before | new
  · exact .inl before
  · rw [List.mem_singleton.mp new, here]
    exact .inr (Interner.holds_intern _ _ _)

theorem Move.continues (move : Move u c d) (within : c.Within) (consistent : c.Consistent)
    {p : OpenPass} (running : p ∈ d.passes) :
    p.pass.registry < d.registries.length ∧ c.Continues d p := by
  have count : ∀ n op, c.registries.length ≤ (c.change n op).registries.length :=
    fun _ _ => Nat.le_of_eq List.length_set.symm
  cases move with
  | create config => exact goes_on within running (by rw [List.length_append]; omega)
  | intern n text user => exact goes_on within running (count _ _)
  | declare n m name => exact goes_on within running (count _ _)
  | markInitialized n m => exact goes_on within running (count _ _)
  | addFunction n owner name params returnType callable =>
    exact goes_on within running (count _ _)
  | number => exact goes_on within running (Nat.le_refl _)
  | write n => exact goes_on within running (Nat.le_refl _)
  | @register n type owner there absent =>
    rcases List.mem_cons.mp running with rfl | old
    · exact ⟨Nat.lt_of_lt_of_le there (count n _), .inr (bound_firstPass there (consistent n).free rfl)⟩
    · exact goes_on within old (count _ _)
  | @extend n type h there =>
    rcases List.mem_cons.mp running with rfl | old
    · exact ⟨there, .inr (bound_laterPass c n type h rfl)⟩
    · exact goes_on within old (Nat.le_refl _)
  | @enter q rest top text =>
    rcases List.mem_cons.mp running with rfl | old
    · have first : q ∈ c.passes := top ▸ List.mem_cons_self
      exact ⟨Nat.lt_of_lt_of_le (within q first) (count _ _),
        continues_entering within first text rfl⟩
    · exact goes_on within (top ▸ List.mem_cons_of_mem q old) (count _ _)
  | @make q rest top e next =>
    rcases List.mem_cons.mp running with rfl | old
    · have first : q ∈ c.passes := top ▸ List.mem_cons_self
      exact ⟨within q first, .inl ⟨q, first, rfl, fun name listed => .inl listed⟩⟩
    · exact goes_on within (top ▸ List.mem_cons_of_mem q old) (Nat.le_refl _)
  | @commit q rest top draft collected =>
    exact goes_on within (top ▸ List.mem_cons_of_mem q running) (count _ _)
  | @abandon q rest top first =>
    exact goes_on within (top ▸ List.mem_cons_of_mem q running) (count _ _)
  | @drop q rest top later =>
    exact goes_on within (top ▸ List.mem_cons_of_mem q running) (Nat.le_refl _)

theorem Step.continues (step : Step u c d) (within : c.Within) (consistent : c.Consistent)
    {p : OpenPass} (running : p ∈ d.passes) :
    p.pass.registry < d.registries.length ∧ c.Continues d p := by
  cases step with
  | move move => exact move.continues within consistent running
  | overhaul overhaul =>
    have same : d.passes = c.passes ∧ d.registries.length = c.registries.length := by
      cases overhaul with
      | merge bytes options => exact ⟨rfl, List.length_set⟩
      | unregister m => exact ⟨rfl, List.length_set⟩
    rw [same.1] at running
    exact goes_on within running (Nat.le_of_eq same.2.symm)

/-- What holds of all registries and open passes while rows are held by their owners; `ended` tells
the passes whose rows have ended. -/
structure Kept (c : Catalog) (ended : Script.Pass → Prop) : Prop where
  consistent : c.Consistent
  rows : ∀ n, (c.registry n).RowsHeld
  within : c.Within
  bound : ∀ p ∈ c.passes, ended p.pass ∨ p.Bound c

theorem empty_kept (ended : Script.Pass → Prop) : Kept {} ended where
  consistent := empty_consistent
  rows _ := Registry.empty_rowsHeld {}
  within _ running := by cases running
  bound _ running := by cases running

/-- What an open description has entered is held by the owner of its row. -/
theorem holds_of_bound {p : OpenPass} (bound : p.Bound c) {row : Row}
    (alive : (c.registry p.pass.registry).anyRow? p.pass.handle = some row) {name : Name}
    (listed : name ∈ p.names) : (c.registry p.pass.registry).names.Holds row.owner name := by
  have entered := bound.held name listed
  rcases bound.owned with host | ⟨other, there, own⟩
  · exact (host ▸ entered).of_host row.owner
  · cases Option.some.inj (alive.symm.trans there)
    exact own ▸ entered

theorem supplies_of_bound {p : OpenPass} (bound : p.Bound c) {draft : Draft}
    (collected : draft.MadeOf p) {row : Row}
    (alive : (c.registry p.pass.registry).anyRow? p.pass.handle = some row) :
    draft.HeldIn row.owner (c.registry p.pass.registry).names where
  held name listed := holds_of_bound bound alive (collected.names name listed)
  methodArity m listed := (collected.methods m listed).2
  constructorArity k listed := (collected.constructors k listed).2

theorem Kept.step {ended later : Script.Pass → Prop} (kept : c.Kept ended) (step : Step u c d)
    (gone : ∀ p ∈ c.passes, ended p.pass →
      (c.registry p.pass.registry).anyRow? p.pass.handle = none)
    (stays : ∀ p ∈ c.passes, ended p.pass → later p.pass)
    (ends : ∀ p ∈ c.passes, (∃ q ∈ d.passes, p.pass = q.pass) → p.pass.owner ≠ .host →
      p.pass.Owns (c.registry p.pass.registry) → p.pass.Ends c d → later p.pass) :
    d.Kept later where
  consistent n := (step.changed n).consistent (kept.consistent n)
  rows n := by
    rcases step.changed n with same | ⟨op, _, permitted, after⟩
    · exact same ▸ kept.rows n
    · rw [after]
      apply Operation.run_rowsHeld (kept.consistent n) (kept.rows n)
      cases op with
      | commit h draft =>
        obtain ⟨p, top, rfl, rfl, collected⟩ := permitted
        have running : p ∈ c.passes := top ▸ List.mem_cons_self
        intro row alive
        rcases kept.bound p running with finished | bound
        · rw [gone p running finished] at alive
          contradiction
        · exact supplies_of_bound bound collected alive
      | _ => trivial
  within p running := (step.continues kept.within kept.consistent running).1
  bound p running := by
    rcases (step.continues kept.within kept.consistent running).2 with
      ⟨q, before, same, names⟩ | bound
    · rcases kept.bound q before with finished | bound
      · exact .inl (same ▸ stays q before finished)
      · rcases bound_of_changed bound (kept.consistent _) (step.changed _) with
          bound | ⟨named, owns, finished⟩
        · refine .inr ⟨same ▸ bound.owned, fun name listed => ?_⟩
          rcases names name listed with old | new
          · exact same ▸ bound.held name old
          · exact new
        · exact .inl (same ▸ ends q before ⟨p, running, same⟩ named owns finished)
    · exact .inr bound

/-- A step that replaces and removes rows of a registry only while no description runs on it. -/
inductive QuietStep (u : Universe) (c : Catalog) : Catalog → Prop where
  | move {d : Catalog} (move : Move u c d) : QuietStep u c d
  | overhaul {d : Catalog} {n : Nat} (overhaul : Overhaul c n d)
      (idle : ∀ p ∈ c.passes, p.pass.registry ≠ n) : QuietStep u c d

theorem QuietStep.step (quiet : QuietStep u c d) : Step u c d := by
  cases quiet with
  | move move => exact .move move
  | overhaul overhaul idle => exact .overhaul overhaul

/-- Whether an older pass is not about the row that a newer one was opened for. -/
def Avoids (newer older : OpenPass) : Prop :=
  newer.isFirst = true → older.pass.owner ≠ .host → older.pass.registry = newer.pass.registry →
    older.pass.handle.slot.index ≠ newer.pass.handle.slot.index

def Apart (c : Catalog) : Prop := c.passes.Pairwise Avoids

theorem Apart.top (apart : c.Apart) {p : OpenPass} {rest : List OpenPass}
    (top : c.passes = p :: rest) : (∀ q ∈ rest, Avoids p q) ∧ rest.Pairwise Avoids := by
  unfold Apart at apart
  rw [top] at apart
  exact List.pairwise_cons.mp apart

theorem Overhaul.registry {n k : Nat} (overhaul : Overhaul c n d) (other : k ≠ n) :
    d.registry k = c.registry k := by
  cases overhaul with
  | merge bytes options => rw [registry_change, if_neg fun here => other here.1]
  | unregister m => rw [registry_change, if_neg fun here => other here.1]

theorem Overhaul.passes {n : Nat} (overhaul : Overhaul c n d) : d.passes = c.passes := by
  cases overhaul with
  | merge bytes options => rfl
  | unregister m => rfl

/-- A new row is not in the slot of a row that is there. -/
theorem avoids_firstPass {n : Nat} {type : TypeKey} {owner : ModuleId}
    (free : (c.registry n).types.FreeExact) {q : OpenPass} (bound : q.Bound c) :
    Avoids (c.firstPass u n type owner) q := by
  intro _ named same here
  obtain ⟨row, alive, _⟩ := bound.owned.resolve_left named
  have present := (SlotTable.get?_eq_some_iff.mp alive).1
  rw [here, show q.pass.registry = n from same] at present
  have empty := SlotTable.rowAt?_insert_index free ((c.registry n).skeletonRow u type owner)
  have absent : (c.registry n).types.rowAt?
      ((c.registry n).insertSkeleton u type owner).1.slot.index = none := empty
  rw [show (c.firstPass u n type owner).pass.handle =
    ((c.registry n).insertSkeleton u type owner).1 from rfl, absent] at present
  contradiction

theorem Move.apart (move : Move u c d) (kept : c.Kept fun _ => False) (apart : c.Apart) :
    d.Apart := by
  cases move with
  | @register n type owner within absent =>
    refine List.pairwise_cons.mpr ⟨fun q running => ?_, apart⟩
    exact avoids_firstPass (kept.consistent n).free ((kept.bound q running).resolve_left id)
  | extend type h within =>
    refine List.pairwise_cons.mpr ⟨fun q running first => ?_, apart⟩
    cases first
  | enter top text =>
    obtain ⟨head, tail⟩ := apart.top top
    exact List.pairwise_cons.mpr ⟨head, tail⟩
  | make top next =>
    obtain ⟨head, tail⟩ := apart.top top
    exact List.pairwise_cons.mpr ⟨head, tail⟩
  | commit top collected => exact (apart.top top).2
  | abandon top first => exact (apart.top top).2
  | drop top later => exact (apart.top top).2
  | _ => exact apart

theorem QuietStep.kept (quiet : QuietStep u c d) (kept : c.Kept fun _ => False)
    (apart : c.Apart) : d.Kept (fun _ => False) ∧ d.Apart := by
  cases quiet with
  | move move =>
    refine ⟨kept.step (.move move) (fun _ _ => False.elim) (fun _ _ => id) ?_,
      move.apart kept apart⟩
    rintro p running ⟨q, still, same⟩ named owns ends
    rcases move.changed p.pass.registry with unchanged | ⟨op, quiet, permitted, after⟩
    · exact SlotTable.generationAt_ne (by rw [unchanged]) ends
    · rw [Script.Pass.Ends, after] at ends
      rcases Operation.generationAt_run quiet p.pass.handle.slot.index with
        unended | ⟨h, rfl, here⟩
      · exact SlotTable.generationAt_ne unended ends
      · obtain ⟨first, top, isFirst, there, handle⟩ := permitted
        have avoids := (apart.top top).1 q still isFirst
        rw [← same, there, handle] at avoids
        exact avoids named rfl here
  | overhaul overhaul idle =>
    refine ⟨kept.step (u := u) (.overhaul overhaul) (fun _ _ => False.elim) (fun _ _ => id) ?_,
      by rw [Apart, overhaul.passes]; exact apart⟩
    rintro p running _ _ _ ends
    have unchanged := overhaul.registry (idle p running)
    exact SlotTable.generationAt_ne (by rw [unchanged]) ends

theorem kept_of_quiet (run : Relation.ReflTransGen (QuietStep u) {} c) :
    c.Kept (fun _ => False) ∧ c.Apart := by
  induction run with
  | refl => exact ⟨empty_kept _, List.Pairwise.nil⟩
  | tail _ quiet ih => exact quiet.kept ih.1 ih.2

end Catalog

namespace Counted

variable {u : Universe} {a b : Counted}

/-- Whether the row that a pass was opened for has ended since. -/
def Ended (a : Counted) (p : Script.Pass) : Prop :=
  ∃ earlier < a.tally.types p.registry p.handle.slot.index,
    p.handle.slot.generation = UInt32.ofNat earlier

theorem Ended.gone {p : Script.Pass} (ended : a.Ended p) (good : a.Good)
    (bounded : a.tally.Bounded) : (a.catalog.registry p.registry).anyRow? p.handle = none := by
  obtain ⟨earlier, less, generation⟩ := ended
  cases alive : (a.catalog.registry p.registry).anyRow? p.handle with
  | none => rfl
  | some row =>
    have current := (SlotTable.get?_eq_some_iff.mp alive).2
    rw [good.typesCounted p.registry, generation] at current
    have small := bounded.types p.registry p.handle.slot.index
    have same := SlotTable.tally_eq small (Nat.lt_trans less small) current
    omega

theorem Step.kept (step : Step u a b) (good : a.Good) (kept : a.catalog.Kept a.Ended)
    (bounded : a.tally.Bounded) : b.catalog.Kept b.Ended := by
  have later := (step.good good).2
  obtain ⟨step⟩ := step
  refine kept.step step (fun p _ ended => ended.gone good bounded) ?_ ?_
  · rintro p _ ⟨earlier, less, generation⟩
    exact ⟨earlier, Nat.lt_of_lt_of_le less ((later.types _).le _), generation⟩
  · rintro p _ _ _ ⟨row, alive, _⟩ ends
    refine ⟨a.tally.types p.pass.registry p.pass.handle.slot.index, ?_, ?_⟩
    · show _ < _ + _
      rw [SlotTable.endings_of_next ends]
      exact Nat.lt_succ_self _
    · rw [← (SlotTable.get?_eq_some_iff.mp alive).2, good.typesCounted]

theorem Run.kept (run : Run u {} a) (bounded : a.tally.Bounded) : a.catalog.Kept a.Ended := by
  induction run with
  | refl => exact Catalog.empty_kept _
  | @tail b c before step ih =>
    have good := (Run.good before empty_good).1
    have smaller := (step.good good).2.bounded bounded
    exact step.kept good (ih smaller) smaller

end Counted

namespace Catalog

variable {u : Universe} {c : Catalog}

/-- The states of the runs in which a row of a registry is replaced or removed only while no
description runs on it, and of those in which no slot runs out of generations. -/
inductive Attained (u : Universe) (c : Catalog) : Prop where
  | quiet (run : Relation.ReflTransGen (QuietStep u) {} c)
  | counted {tally : Tally} (run : Counted.Run u {} ⟨c, tally⟩) (bounded : tally.Bounded)

theorem Attained.kept (attained : Attained u c) : ∃ ended, c.Kept ended := by
  cases attained with
  | quiet run => exact ⟨_, (kept_of_quiet run).1⟩
  | counted run bounded => exact ⟨_, Counted.Run.kept run bounded⟩

theorem Attained.reachable (attained : Attained u c) : Reachable u c := by
  cases attained with
  | quiet run =>
    have steps : ∀ a b, QuietStep u a b → Step u a b := fun _ _ quiet => quiet.step
    exact Relation.ReflTransGen.mono steps _ _ run
  | counted run bounded => exact Counted.Run.reachable run

/-- The states that are attained by steps of one kind. -/
inductive AttainedBy (kind : Catalog → Catalog → Prop) (u : Universe) (c : Catalog) : Prop where
  | quiet (run : Relation.ReflTransGen (fun a b => QuietStep u a b ∧ kind a b) {} c)
  | counted {tally : Tally}
      (run : Relation.ReflTransGen
        (fun a b => Counted.Step u a b ∧ kind a.catalog b.catalog) {} ⟨c, tally⟩)
      (bounded : tally.Bounded)

namespace AttainedBy

variable {kind more : Catalog → Catalog → Prop}

theorem attained (attained : AttainedBy kind u c) : Attained u c := by
  cases attained with
  | quiet run => exact .quiet (Relation.ReflTransGen.mono (fun _ _ => And.left) _ _ run)
  | counted run bounded =>
    exact .counted (Relation.ReflTransGen.mono (fun _ _ => And.left) _ _ run) bounded

theorem mono (wider : ∀ a b, kind a b → more a b) (attained : AttainedBy kind u c) :
    AttainedBy more u c := by
  cases attained with
  | quiet run =>
    exact .quiet (Relation.ReflTransGen.mono (fun a b step => ⟨step.1, wider a b step.2⟩) _ _ run)
  | counted run bounded =>
    refine .counted (Relation.ReflTransGen.mono (fun a b step => ?_) _ _ run) bounded
    exact ⟨step.1, wider _ _ step.2⟩

/-- What holds at the beginning holds of a state if each step keeps it that is of the kind, given
that rows are held by their owners and the rows of ended passes are gone. -/
theorem induction {P : Catalog → Prop} (attained : AttainedBy kind u c) (start : P {})
    (next : ∀ {a b : Catalog} {ended : Script.Pass → Prop}, a.Kept ended →
      (∀ p ∈ a.passes, ended p.pass →
        (a.registry p.pass.registry).anyRow? p.pass.handle = none) → kind a b → P a → P b) :
    P c := by
  cases attained with
  | quiet run =>
    induction run with
    | refl => exact start
    | tail before step ih =>
      have quiet := Relation.ReflTransGen.mono (fun _ _ => And.left) _ _ before
      exact next (kept_of_quiet quiet).1 (fun _ _ => False.elim) step.2 ih
  | @counted tally run bounded =>
    generalize isEnd : Counted.mk c tally = a at run
    induction run generalizing c tally with
    | refl => cases isEnd; exact start
    | @tail b a before step ih =>
      subst isEnd
      have run : Counted.Run u {} b := Relation.ReflTransGen.mono (fun _ _ => And.left) _ _ before
      have good := (Counted.Run.good run Counted.empty_good).1
      have smaller := (step.1.good good).2.bounded bounded
      have kept := Counted.Run.kept run smaller
      exact next kept (fun p _ ended => ended.gone good smaller) step.2 (ih smaller rfl)

end AttainedBy

end Catalog

end TypeCatalog
