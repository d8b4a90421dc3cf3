import TypeCatalog.Proofs.Bookkeeping
import TypeCatalog.Proofs.Lookup
import TypeCatalog.Proofs.Pending

/-!
Which row a name leads to. A look-up by name follows the table of names to one slot and shows the
row there if it is published, and nothing otherwise. Rows that are not published belong to open
descriptions, so outside descriptions a name leads to a published row whenever one carries it; while
a type is being described its pending row can stand before a published row of the same name.
-/
namespace TypeCatalog

namespace Registry

variable {r s : Registry} {h : TypeHandle} {row : Row}

theorem Merged.anyRow?_before {options : MergeOptions} {type : Image.ReadType}
    (consistent : r.Consistent) (merged : Merged options type r s) (there : s.anyRow? h = some row)
    (unpublished : row.published = false) : r.anyRow? h = some row := by
  cases merged with
  | added fresh =>
    rw [anyRow?_insertRow (consistent.withNames _).free] at there
    split at there
    · cases Option.some.inj there
      contradiction
    · exact there
  | @replaced index old present same published allowed =>
    have later : (Image.carryOver (Image.buildRow r.names type (options.owner.getD type.owner))
        old).1.published = true := carryOver_published rfl old
    generalize Image.carryOver (Image.buildRow r.names type (options.owner.getD type.owner)) old =
      draft at later there
    rw [anyRow?, types_replaceRow (r := { r with names := draft.2 }) present draft.1] at there
    by_cases here : h.slot.index = index
    · have placed := (SlotTable.get?_eq_some_iff.mp there).1
      rw [SlotTable.rowAt?_replace (SlotTable.lt_length_of_rowAt? present), if_pos here] at placed
      cases Option.some.inj placed
      rw [unpublished] at later
      contradiction
    · rwa [SlotTable.get?_replace_of_ne _ here] at there
  | kept present same => exact there

theorem merge_anyRow?_before (consistent : r.Consistent) {exports : ExportTable}
    {bytes : List UInt8} {options : MergeOptions}
    (there : (r.merge exports bytes options).2.anyRow? h = some row)
    (unpublished : row.published = false) : r.anyRow? h = some row := by
  rcases merge_merged consistent exports bytes options with same | ⟨types, -, merged⟩
  · rwa [same] at there
  · generalize (r.merge exports bytes options).2 = s at merged there
    induction merged with
    | none => exact there
    | next before _ last ih =>
      exact ih (last.anyRow?_before (before.consistent consistent) there unpublished)

end Registry

/-- Whether a change ends the description of the row behind a handle. -/
def Operation.Finishes (op : Operation) (h : TypeHandle) : Prop :=
  op = .discard h ∨ ∃ draft, op = .commit h draft

/-- A change that ends the description of a row publishes the row, if it leaves it. -/
theorem Operation.unfinished {r : Registry} {op : Operation} {h : TypeHandle} {row : Row}
    (there : (op.run r).anyRow? h = some row) (unpublished : row.published = false) :
    ¬ op.Finishes h := by
  rintro (rfl | ⟨draft, rfl⟩)
  · rw [run, Registry.anyRow?_discardPending] at there
    have published := (Option.filter_eq_some_iff.mp there).2
    rw [unpublished] at published
    contradiction
  · cases alive : r.anyRow? h with
    | none =>
      rw [run, Registry.commit_dead alive, alive] at there
      contradiction
    | some old =>
      rw [run, Registry.anyRow?_commit alive] at there
      cases Option.some.inj there
      contradiction

/-- A row that is not published after a change was there before, unless the change has added it, and
the change has not ended its description. -/
theorem Operation.anyRow?_before {r : Registry} {op : Operation} {h : TypeHandle} {row : Row}
    (consistent : r.Consistent) (there : (op.run r).anyRow? h = some row)
    (unpublished : row.published = false) :
    (r.anyRow? h = some row ∧ ¬ op.Finishes h) ∨
      ∃ u type owner, op = .skeleton u type owner ∧ h = (r.insertSkeleton u type owner).1 := by
  have unfinished : ¬ op.Finishes h := unfinished there unpublished
  cases op.alters r with
  | nothing quiet types =>
    rw [Registry.anyRow?, types] at there
    exact .inl ⟨there, unfinished⟩
  | adds u type owner types =>
    rw [Registry.anyRow?, types, SlotTable.get?_insert consistent.free] at there
    split at there
    · rename_i here
      exact .inr ⟨u, type, owner, rfl, congrArg TypeHandle.mk here⟩
    · exact .inl ⟨there, unfinished⟩
  | @publishes other old draft alive types =>
    have elsewhere : h.slot.index ≠ other.slot.index := by
      intro same
      obtain ⟨placed, generation⟩ := SlotTable.get?_eq_some_iff.mp there
      rw [types, SlotTable.generationAt_modify, same, (SlotTable.get?_eq_some_iff.mp alive).2]
        at generation
      refine unfinished (.inr ⟨draft, ?_⟩)
      obtain ⟨⟨index, number⟩⟩ := h
      obtain ⟨⟨index', number'⟩⟩ := other
      simp_all
    rw [Registry.anyRow?, types, SlotTable.get?_modify_of_ne _ elsewhere] at there
    exact .inl ⟨there, unfinished⟩
  | @removes other old alive types =>
    have elsewhere : h.slot.index ≠ other.slot.index := by
      intro same
      have placed := (SlotTable.get?_eq_some_iff.mp there).1
      rw [types, SlotTable.rowAt?_remove, if_pos same] at placed
      contradiction
    rw [Registry.anyRow?, types, SlotTable.get?_remove_of_ne _ elsewhere] at there
    exact .inl ⟨there, unfinished⟩
  | sweeps m types =>
    rw [Registry.anyRow?, types] at there
    exact .inl ⟨(SlotTable.get?_sweep_iff.mp there).1, unfinished⟩
  | merges exports bytes options =>
    exact .inl ⟨Registry.merge_anyRow?_before consistent there unpublished, unfinished⟩

namespace Catalog

variable {u : Universe} {c d : Catalog}

/-- Every row that is not published is being described for the first time. -/
def Described (c : Catalog) : Prop :=
  ∀ n h row, (c.registry n).anyRow? h = some row → row.published = false →
    ∃ p ∈ c.passes, p.isFirst = true ∧ p.pass.registry = n ∧ p.pass.handle = h

/-- Whether each first description that is open in `c` is open in `d`. -/
def Keeps (c d : Catalog) : Prop :=
  ∀ p ∈ c.passes, p.isFirst = true → ∃ q ∈ d.passes, q.isFirst = true ∧ q.pass = p.pass

/-- A first description that is still open, or whose row the change `op` publishes or removes. -/
def Continued (d : Catalog) (k : Nat) (op : Operation) (p : OpenPass) : Prop :=
  (∃ q ∈ d.passes, q.isFirst = true ∧ q.pass = p.pass) ∨
    (p.pass.registry = k ∧ op.Finishes p.pass.handle)

theorem Keeps.of_subset (subset : c.passes ⊆ d.passes) : c.Keeps d :=
  fun p running first => ⟨p, subset running, first, rfl⟩

theorem Keeps.of_top {p q : OpenPass} {rest : List OpenPass} (top : c.passes = p :: rest)
    (now : d.passes = q :: rest) (isFirst : q.isFirst = p.isFirst) (pass : q.pass = p.pass) :
    c.Keeps d := by
  intro r running first
  rw [top] at running
  rw [now]
  rcases List.mem_cons.mp running with rfl | older
  · exact ⟨q, List.mem_cons_self, isFirst.trans first, pass⟩
  · exact ⟨r, List.mem_cons_of_mem q older, first, rfl⟩

theorem Keeps.continued (keeps : c.Keeps d) {k : Nat} {op : Operation} :
    ∀ p ∈ c.passes, p.isFirst = true → d.Continued k op p :=
  fun p running first => .inl (keeps p running first)

/-- The other descriptions go on when a change ends the one that was begun last. -/
theorem continued_of_ended {p : OpenPass} (top : c.passes = p :: d.passes) {op : Operation}
    (finishes : op.Finishes p.pass.handle) :
    ∀ q ∈ c.passes, q.isFirst = true → d.Continued p.pass.registry op q := by
  intro q running first
  rw [top] at running
  rcases List.mem_cons.mp running with rfl | older
  · exact .inr ⟨rfl, finishes⟩
  · exact .inl ⟨q, older, first, rfl⟩

theorem Described.keep (described : c.Described) (same : ∀ n, d.registry n = c.registry n)
    (keeps : c.Keeps d) : d.Described := by
  intro n h row there unpublished
  rw [same] at there
  obtain ⟨p, running, first, here, handle⟩ := described n h row there unpublished
  obtain ⟨q, still, isFirst, pass⟩ := keeps p running first
  exact ⟨q, still, isFirst, pass ▸ here, pass ▸ handle⟩

theorem Described.change (described : c.Described) {k : Nat} (op : Operation)
    (consistent : c.Consistent) (after : d.registries = (c.change k op).registries)
    (continued : ∀ p ∈ c.passes, p.isFirst = true → d.Continued k op p)
    (begins : ∀ u type owner, op = .skeleton u type owner → ∃ p ∈ d.passes, p.isFirst = true ∧
      p.pass.registry = k ∧ p.pass.handle = ((c.registry k).insertSkeleton u type owner).1) :
    d.Described := by
  intro n h row there unpublished
  have here : d.registry n = (c.change k op).registry n := by
    unfold registry
    rw [after]
  rw [here, registry_change] at there
  -- Either the row was there, and its description has not ended, or it is new.
  have before : ((c.registry n).anyRow? h = some row ∧ ¬ (n = k ∧ op.Finishes h)) ∨
      ∃ u type owner, op = .skeleton u type owner ∧ n = k ∧
        h = ((c.registry k).insertSkeleton u type owner).1 := by
    by_cases changed : n = k ∧ k < c.registries.length
    · rw [if_pos changed] at there
      obtain ⟨rfl, -⟩ := changed
      exact (Operation.anyRow?_before (consistent n) there unpublished).imp
        (fun ⟨old, unfinished⟩ => ⟨old, fun finished => unfinished finished.2⟩)
        fun ⟨u, type, owner, added, handle⟩ => ⟨u, type, owner, added, rfl, handle⟩
    · rw [if_neg changed] at there
      refine .inl ⟨there, ?_⟩
      rintro ⟨rfl, -⟩
      rw [registry_of_le (Nat.le_of_not_lt fun within => changed ⟨rfl, within⟩)] at there
      cases there
  rcases before with ⟨old, unfinished⟩ | ⟨u, type, owner, added, rfl, handle⟩
  · obtain ⟨p, running, first, rfl, rfl⟩ := described n h row old unpublished
    rcases continued p running first with ⟨q, still, isFirst, pass⟩ | finished
    · exact ⟨q, still, isFirst, by rw [pass], by rw [pass]⟩
    · exact absurd finished unfinished
  · obtain ⟨p, running, first, here, same⟩ := begins u type owner added
    exact ⟨p, running, first, here, same.trans handle.symm⟩

theorem Move.described (move : Move u c d) (consistent : c.Consistent) (described : c.Described) :
    d.Described := by
  cases move with
  | create config =>
    intro n h row there unpublished
    rw [registry_create] at there
    split at there
    · cases there
    · exact described n h row there unpublished
  | intern n text user =>
    exact described.change _ consistent rfl (Keeps.of_subset fun _ => id).continued nofun
  | declare n m name =>
    exact described.change _ consistent rfl (Keeps.of_subset fun _ => id).continued nofun
  | markInitialized n m =>
    exact described.change _ consistent rfl (Keeps.of_subset fun _ => id).continued nofun
  | addFunction n owner name params returnType callable =>
    exact described.change _ consistent rfl (Keeps.of_subset fun _ => id).continued nofun
  | number => exact described
  | write n => exact described
  | @register n type owner within absent =>
    have keeps : c.Keeps (c.begun u n type owner) := .of_subset (List.subset_cons_self _ _)
    refine described.change (.skeleton u type owner) consistent rfl keeps.continued ?_
    rintro _ _ _ ⟨⟩
    exact ⟨_, List.mem_cons_self, rfl, rfl, rfl⟩
  | extend type h within =>
    exact described.keep (fun _ => rfl) (.of_subset (List.subset_cons_self _ _))
  | @enter p rest top text =>
    refine described.change _ consistent rfl (Keeps.continued ?_) nofun
    exact .of_top top rfl rfl rfl
  | @make p rest top e next =>
    exact described.keep (fun _ => rfl) (.of_top top rfl rfl rfl)
  | @commit p rest top draft collected =>
    exact described.change (.commit p.pass.handle draft) consistent rfl
      (continued_of_ended top (.inr ⟨draft, rfl⟩)) nofun
  | @abandon p rest top isFirst =>
    exact described.change (.discard p.pass.handle) consistent rfl
      (continued_of_ended top (.inl rfl)) nofun
  | @drop p rest top later =>
    refine described.keep (fun _ => rfl) fun q running first => ?_
    rw [top] at running
    rcases List.mem_cons.mp running with rfl | older
    · rw [later] at first
      contradiction
    · exact ⟨q, older, first, rfl⟩

theorem Step.described (step : Step u c d) (consistent : c.Consistent) (described : c.Described) :
    d.Described := by
  cases step with
  | move move => exact move.described consistent described
  | overhaul overhaul =>
    cases overhaul with
    | merge bytes options =>
      exact described.change _ consistent rfl (Keeps.of_subset fun _ => id).continued nofun
    | unregister m =>
      exact described.change _ consistent rfl (Keeps.of_subset fun _ => id).continued nofun

theorem Reachable.described (reachable : Reachable u c) : c.Described := by
  induction reachable with
  | refl => exact fun n h row there _ => nomatch there
  | tail before step ih => exact step.described (Reachable.allConsistent before) ih

/-- Whether no type of the registry of number `n` is being described for the first time. -/
def Settled (c : Catalog) (n : Nat) : Prop :=
  ∀ p ∈ c.passes, p.isFirst = true → p.pass.registry ≠ n

theorem Reachable.published (reachable : Reachable u c) {n : Nat} (settled : c.Settled n)
    {index : Nat} {row : Row} (present : (c.registry n).types.rowAt? index = some row) :
    row.published = true := by
  cases published : row.published with
  | true => rfl
  | false =>
    have there : (c.registry n).anyRow? ⟨⟨index, (c.registry n).types.generationAt index⟩⟩ =
        some row := SlotTable.get?_eq_some_iff.mpr ⟨present, rfl⟩
    obtain ⟨p, running, first, here, _⟩ := reachable.described n _ row there published
    exact absurd here (settled p running first)

end Catalog

namespace Registry

variable {r : Registry}

theorem byName?_eq_some_iff {text : String} {h : TypeHandle} {row : Row} :
    r.byName? text = some (h, row) ↔ ∃ id, r.names.find? text = some id ∧
      r.byName.find? id = some h.slot.index ∧ r.row? h = some row := by
  simp only [byName?, Option.bind_eq_bind, Option.bind_eq_some_iff, SlotTable.refAt?_eq]
  constructor
  · rintro ⟨id, known, index, leads, ref, here, other, found, pair⟩
    obtain ⟨any, present, rfl⟩ := Option.map_eq_some_iff.mp here
    cases pair
    exact ⟨id, known, leads, found⟩
  · rintro ⟨id, known, leads, found⟩
    have alive := (Option.filter_eq_some_iff.mp found).1
    obtain ⟨present, generation⟩ := SlotTable.get?_eq_some_iff.mp alive
    exact ⟨id, known, _, leads, h.slot, by rw [present, generation]; rfl, row, found, rfl⟩

theorem typeByName?_eq_some_iff {text : String} {h : TypeHandle} :
    r.typeByName? text = some h ↔ ∃ id row, r.names.find? text = some id ∧
      r.byName.find? id = some h.slot.index ∧ r.row? h = some row := by
  rw [typeByName?, Option.map_eq_some_iff]
  constructor
  · rintro ⟨⟨_, row⟩, found, rfl⟩
    obtain ⟨id, known, leads, there⟩ := byName?_eq_some_iff.mp found
    exact ⟨id, row, known, leads, there⟩
  · rintro ⟨id, row, known, leads, there⟩
    exact ⟨(h, row), byName?_eq_some_iff.mpr ⟨id, known, leads, there⟩, rfl⟩

/-- The name of a row is what its text leads to. -/
theorem RowsHeld.find?_name (held : r.RowsHeld) {index : Nat} {row : Row}
    (present : r.types.rowAt? index = some row) :
    r.names.find? row.name.text = some row.name.id :=
  ((held index row present).held row.name List.mem_cons_self).find?

/-- Rows that carry one name have one text. -/
theorem RowsHeld.text_of_carries (held : r.RowsHeld) {index : Nat} {text : String} {id : NameId}
    (known : r.names.find? text = some id) (carried : r.Carries index id) :
    ∃ row, r.types.rowAt? index = some row ∧ row.name.text = text := by
  obtain ⟨row, present, same⟩ := carried
  obtain ⟨entry, stored, own⟩ := Interner.entryAt?_of_find? known
  obtain ⟨other, here, texts, _⟩ := (held index row present).held row.name List.mem_cons_self
  rw [same, stored] at here
  cases Option.some.inj here
  exact ⟨row, present, texts.symm.trans own⟩

theorem text_of_typeByName? (held : r.RowsHeld) (consistent : r.Consistent) {text : String}
    {h : TypeHandle} (found : r.typeByName? text = some h) :
    ∃ row, r.row? h = some row ∧ row.name.text = text := by
  obtain ⟨id, row, known, leads, there⟩ := typeByName?_eq_some_iff.mp found
  obtain ⟨other, present, same⟩ := held.text_of_carries known (consistent.leads id _ leads)
  cases Option.some.inj (present.symm.trans (rowAt?_of_row? there))
  exact ⟨row, there, same⟩

/-- A published row's name is found, to it or another row, if no row that carries it is pending. -/
theorem typeByName?_of_row? (held : r.RowsHeld) (consistent : r.Consistent) {h : TypeHandle}
    {row : Row} (found : r.row? h = some row)
    (shown : ∀ index other, r.types.rowAt? index = some other → other.name.text = row.name.text →
      other.published = true) : ∃ k, r.typeByName? row.name.text = some k := by
  have present := rowAt?_of_row? found
  have known := held.find?_name present
  obtain ⟨index, leads⟩ := (consistent.name_iff row.name.id).mpr ⟨_, row, present, rfl⟩
  obtain ⟨other, there, same⟩ := held.text_of_carries known (consistent.leads _ _ leads)
  let k : TypeHandle := ⟨⟨index, r.types.generationAt index⟩⟩
  have alive : r.anyRow? k = some other := SlotTable.get?_eq_some_iff.mpr ⟨there, rfl⟩
  refine ⟨k, typeByName?_eq_some_iff.mpr ⟨_, other, known, leads, ?_⟩⟩
  exact Option.filter_eq_some_iff.mpr ⟨alive, shown index other there same⟩

end Registry

namespace Catalog

variable {u : Universe} {c : Catalog}

/-- In every state, what a look-up by name answers is a published row of that name. It answers
exactly when there is one, unless a type whose pending row has the name is being described; so it
does whenever no type of the registry is being described for the first time. -/
theorem name_leads_to_published_row (attained : Attained u c) (n : Nat) (text : String) :
    let r := c.registry n
    let carried := ∃ h row, r.row? h = some row ∧ row.name.text = text
    (∀ h, r.typeByName? text = some h → ∃ row, r.row? h = some row ∧ row.name.text = text) ∧
    ((∀ h row, r.anyRow? h = some row → row.published = false → row.name.text ≠ text) →
      ((∃ h, r.typeByName? text = some h) ↔ carried)) ∧
    (c.Settled n → ((∃ h, r.typeByName? text = some h) ↔ carried)) := by
  intro r carried
  obtain ⟨ended, kept⟩ := attained.kept
  have held : r.RowsHeld := kept.rows n
  have consistent : r.Consistent := kept.consistent n
  have sound : ∀ h, r.typeByName? text = some h → ∃ row, r.row? h = some row ∧ row.name.text = text :=
    fun h found => Registry.text_of_typeByName? held consistent found
  have exact_ : (∀ h row, r.anyRow? h = some row → row.published = false → row.name.text ≠ text) →
      ((∃ h, r.typeByName? text = some h) ↔ carried) := by
    intro spared
    refine ⟨fun ⟨h, found⟩ => ⟨h, sound h found⟩, ?_⟩
    rintro ⟨h, row, found, rfl⟩
    refine Registry.typeByName?_of_row? held consistent found fun index other there same => ?_
    cases published : other.published with
    | true => rfl
    | false =>
      have alive : r.anyRow? ⟨⟨index, r.types.generationAt index⟩⟩ = some other :=
        SlotTable.get?_eq_some_iff.mpr ⟨there, rfl⟩
      exact absurd same (spared _ other alive published)
  refine ⟨sound, exact_, fun settled => exact_ fun h row alive unpublished => ?_⟩
  have present := (SlotTable.get?_eq_some_iff.mp alive).1
  rw [attained.reachable.published settled present] at unpublished
  contradiction

/-- A registry in which the type A is being described, and within that the type B. -/
def nested : Catalog :=
  let u := Gallery.knownTypes
  let empty : Catalog := { registries := [{}] }
  (empty.begun u 0 (.user "A") .host).begun u 0 (.user "B") .host

/-- The same registry once B has been described, under its own name or one entered for it. -/
def nestedDescribed (text : String) (name : Option Name) : Catalog :=
  { (nested.change 0 (.intern text .host)).change 0 (.commit ⟨1, 0⟩ { name }) with
    passes := nested.passes.tail }

theorem attained_nestedDescribed (text : String) (name : Option Name)
    (own : ∀ entered ∈ name, entered = ((nested.registry 0).intern text .host).1) :
    Attained Gallery.knownTypes (nestedDescribed text name) := by
  let empty : Catalog := { registries := [{}] }
  let outer := empty.begun Gallery.knownTypes 0 (.user "A") .host
  let p := outer.firstPass Gallery.knownTypes 0 (.user "B") .host
  let q : OpenPass := { p with names := [((nested.registry 0).intern text .host).1] }
  let entered : Catalog := { nested.change 0 (.intern text .host) with passes := q :: outer.passes }
  have first : QuietStep Gallery.knownTypes {} empty := .move (.create {})
  have second : QuietStep Gallery.knownTypes empty outer := .move (.register .host (by decide) rfl)
  have third : QuietStep Gallery.knownTypes outer nested :=
    .move (.register .host (by decide) (by decide +kernel))
  have fourth : QuietStep Gallery.knownTypes nested entered := .move (.enter (p := p) rfl text)
  have collected : Draft.MadeOf { name } q := by
    refine ⟨fun n listed => ?_, by simp, by simp, by simp⟩
    exact List.mem_singleton.mpr (own n (by simpa [Draft.names] using listed))
  have fifth : QuietStep Gallery.knownTypes entered (nestedDescribed text name) :=
    .move (.commit (p := q) rfl collected)
  exact .quiet (((((Relation.ReflTransGen.single first).tail second).tail third).tail fourth).tail
    fifth)

/-- A type that has been described within the description of another one is found by its name. -/
theorem nested_type_found_by_name :
    let c := nestedDescribed "" none
    Attained Gallery.knownTypes c ∧ ∃ h, (c.registry 0).typeByName? "zoo::B" = some h := by
  intro c
  have attained := attained_nestedDescribed "" none nofun
  have others : (c.registry 0).types.rows.all (fun shown =>
      shown.2.published || shown.2.name.text ≠ "zoo::B") = true := by decide +kernel
  have carried : ((c.registry 0).row? ⟨1, 0⟩).map (·.name.text) = some "zoo::B" := by
    decide +kernel
  refine ⟨attained, ((name_leads_to_published_row attained 0 "zoo::B").2.1 ?_).mpr ?_⟩
  · intro h row alive unpublished
    simpa [unpublished] using List.all_eq_true.mp others (h.slot, row) (SlotTable.mem_rows.mpr alive)
  · exact ⟨⟨1, 0⟩, Option.map_eq_some_iff.mp carried⟩

/-- A type that has been given the name of the type within whose description it was described is not
found by that name, though it is published and carries it. -/
theorem published_name_hidden_by_pending_row :
    let c := nestedDescribed "zoo::A" (some ((nested.registry 0).intern "zoo::A" .host).1)
    Attained Gallery.knownTypes c ∧
      (∃ row, (c.registry 0).row? ⟨1, 0⟩ = some row ∧ row.name.text = "zoo::A") ∧
      (c.registry 0).typeByName? "zoo::A" = none := by
  intro c
  have carried : ((c.registry 0).row? ⟨1, 0⟩).map (·.name.text) = some "zoo::A" := by
    decide +kernel
  have hidden : (c.registry 0).typeByName? "zoo::A" = none := by decide +kernel
  exact ⟨attained_nestedDescribed _ _ (by simp), Option.map_eq_some_iff.mp carried, hidden⟩

end Catalog

end TypeCatalog
