import Mathlib.Data.List.Induction
import TypeCatalog.Image.Merge
import TypeCatalog.Registry.Modules
import TypeCatalog.Proofs.Image.Decode
import TypeCatalog.Proofs.Interner
import TypeCatalog.Proofs.Tables

/-!
What merging an image and removing a module do to a registry. A merged type goes into a new row, or
in the place of the row of its hash, or nowhere; every row that is built is sound, and its owner
holds the names in it.
-/
namespace TypeCatalog

theorem Interner.internAttribute_entered (names : Interner) (key : String) (value : AttributeValue)
    (user : ModuleId) : names.Entered user (names.internAttribute key value user).2 := by
  have first : names.Entered user (names.intern key user).2 := .intern .none key
  cases value with
  | string text => exact first.intern text
  | _ => exact first

namespace Image

/-- A row under construction that began as `start` among the names `before`. -/
structure Drafted (owner : ModuleId) (start : Row) (before : Interner) (draft : RowDraft) :
    Prop where
  sound : draft.1.Sound
  grows : Row.Grows start draft.1
  entered : before.Entered owner draft.2
  held : ∀ n ∈ draft.1.names, draft.2.Holds owner n

theorem internAttributes_entered (owner : ModuleId) (names : Interner)
    (attributes : List ReadAttribute) :
    names.Entered owner (internAttributes owner names attributes).2 := by
  induction attributes generalizing names with
  | nil => exact .none
  | cons a rest ih => exact (names.internAttribute_entered a.key a.value owner).trans (ih _)

theorem entered_member (owner : ModuleId) (names : Interner) (name : String)
    (attributes : List ReadAttribute) :
    names.Entered owner (internAttributes owner (names.intern name owner).2 attributes).2 ∧
      (internAttributes owner (names.intern name owner).2 attributes).2.Holds owner
        (names.intern name owner).1 := by
  have rest := internAttributes_entered owner (names.intern name owner).2 attributes
  exact ⟨(Interner.Entered.intern .none name).trans rest,
    rest.keeps.holds (Interner.holds_intern names name owner)⟩

variable {owner : ModuleId} {start : Row} {before : Interner} {draft : RowDraft}

theorem addReadField_drafted (drafted : Drafted owner start before draft) (f : ReadField) :
    Drafted owner start before (addReadField owner draft f) := by
  obtain ⟨entered, holds⟩ := entered_member owner draft.2 f.name f.attributes
  exact {
    sound := Row.addField_sound drafted.sound _
    grows := drafted.grows.trans (Row.addField_grows _ _)
    entered := drafted.entered.trans entered
    held := Row.addField_names (fun n listed => entered.keeps.holds (drafted.held n listed)) holds }

theorem addReadMethod_drafted (drafted : Drafted owner start before draft) {m : ReadMethod}
    (arity : m.callable.arity = m.params.length) :
    Drafted owner start before (addReadMethod owner draft m) := by
  obtain ⟨entered, holds⟩ := entered_member owner draft.2 m.name m.attributes
  exact {
    sound := Row.addMethod_sound drafted.sound arity
    grows := drafted.grows.trans (Row.addMethod_grows _ _)
    entered := drafted.entered.trans entered
    held := Row.addMethod_names (fun n listed => entered.keeps.holds (drafted.held n listed)) holds }

theorem addReadConstructor_drafted (drafted : Drafted owner start before draft)
    {c : ReadConstructor} (arity : c.callable.arity = c.params.length) :
    Drafted owner start before (addReadConstructor owner draft c) := by
  have entered := internAttributes_entered owner draft.2 c.attributes
  refine {
    sound := Row.addConstructor_sound drafted.sound arity
    grows := drafted.grows.trans (Row.addConstructor_grows _ _)
    entered := drafted.entered.trans entered
    held := ?_ }
  intro n listed
  exact entered.keeps.holds (drafted.held n (by simpa [addReadConstructor] using listed))

def skeleton (names : Interner) (type : ReadType) (owner : ModuleId) : Row :=
  { name := (names.intern type.name owner).1, typeHash := type.typeHash, owner
    size := type.size, align := type.align, flags := type.flags }

theorem skeleton_drafted (names : Interner) (type : ReadType) (owner : ModuleId) :
    Drafted owner (skeleton names type owner) names
      (skeleton names type owner, (names.intern type.name owner).2) where
  sound := Row.skeleton_sound _ _ _ _ _ _
  grows := .refl _
  entered := .intern .none type.name
  held := by
    intro n listed
    have own : n = (names.intern type.name owner).1 := by simpa [Row.names, skeleton] using listed
    exact own ▸ Interner.holds_intern names type.name owner

def buildMembers (names : Interner) (type : ReadType) (owner : ModuleId) : RowDraft :=
  let draft := type.fields.foldl (addReadField owner)
    (skeleton names type owner, (names.intern type.name owner).2)
  let draft := type.methods.foldl (addReadMethod owner) draft
  type.constructors.foldl (addReadConstructor owner) draft

theorem buildRow_eq (names : Interner) (type : ReadType) (owner : ModuleId) :
    buildRow names type owner =
      let draft := buildMembers names type owner
      let attributes := internAttributes owner draft.2 type.attributes
      ({ draft.1 with attributes := attributes.1, published := true }, attributes.2) := rfl

/-- What survives each member that is read holds once all of them are added. -/
theorem buildMembers_induction {P : RowDraft → Prop} {names : Interner} {type : ReadType}
    {owner : ModuleId} (start : P (skeleton names type owner, (names.intern type.name owner).2))
    (field : ∀ d, P d → ∀ f ∈ type.fields, P (addReadField owner d f))
    (method : ∀ d, P d → ∀ m ∈ type.methods, P (addReadMethod owner d m))
    (constructor : ∀ d, P d → ∀ c ∈ type.constructors, P (addReadConstructor owner d c)) :
    P (buildMembers names type owner) := by
  have fields := List.foldlRecOn (motive := P) type.fields _ start field
  have methods := List.foldlRecOn (motive := P) type.methods _ fields method
  exact List.foldlRecOn (motive := P) type.constructors _ methods constructor

/-- What survives each member that an image does not carry holds once all of them are kept. -/
theorem carryOver_induction {P : RowDraft → Prop} {draft : RowDraft} (start : P draft) (old : Row)
    (property : ∀ d, P d → ∀ p ∈ old.properties, P (carryProperty d p))
    (base : ∀ d, P d → ∀ b ∈ old.bases, P (d.1.addBase b, d.2))
    (enumValue : ∀ d, P d → ∀ e, P (carryEnumValue d e)) : P (carryOver draft old) := by
  have properties := List.foldlRecOn (motive := P) old.properties carryProperty start
    fun d holds p listed => property d holds p listed
  have bases := List.foldlRecOn
    (motive := fun row => P (row, (old.properties.foldl carryProperty draft).2)) old.bases
    Row.addBase properties fun row holds b listed => base (row, _) holds b listed
  exact List.foldlRecOn (motive := P) old.enumValues carryEnumValue bases
    fun d holds e _ => enumValue d holds e

theorem buildMembers_drafted {exports : ExportTable} {type : ReadType}
    (backed : type.Backed exports) (names : Interner) (owner : ModuleId) :
    Drafted owner (skeleton names type owner) names (buildMembers names type owner) := by
  apply buildMembers_induction (skeleton_drafted names type owner)
  · exact fun _ drafted f _ => addReadField_drafted drafted f
  · exact fun _ drafted m listed => addReadMethod_drafted drafted (backed.methods m listed).1
  · exact fun _ drafted c listed =>
      addReadConstructor_drafted drafted (backed.constructors c listed).1

theorem buildRow_drafted {exports : ExportTable} {type : ReadType}
    (backed : type.Backed exports) (names : Interner) (owner : ModuleId) :
    Drafted owner (skeleton names type owner) names (buildRow names type owner) := by
  have drafted := buildMembers_drafted backed names owner
  have entered := internAttributes_entered owner (buildMembers names type owner).2 type.attributes
  rw [buildRow_eq]
  exact {
    sound := { drafted.sound with }
    grows := { drafted.grows with published := fun _ => rfl }
    entered := drafted.entered.trans entered
    held := fun n listed => entered.keeps.holds (drafted.held n listed) }

theorem carryOver_drafted (drafted : Drafted owner start before draft)
    (own : draft.1.owner = owner) (old : Row) :
    Drafted owner start before (carryOver draft old) ∧ (carryOver draft old).1.owner = owner := by
  refine carryOver_induction (P := fun d => Drafted owner start before d ∧ d.1.owner = owner)
    ⟨drafted, own⟩ old ?_ ?_ ?_
  · rintro d ⟨drafted, own⟩ p _
    have entered : d.2.Entered owner (d.2.intern p.name.text owner).2 := .intern .none p.name.text
    have grows := Row.addProperty_grows d.1
    simp only [carryProperty, own]
    exact ⟨{
      sound := Row.addProperty_sound drafted.sound _
      grows := drafted.grows.trans (grows _)
      entered := drafted.entered.trans entered
      held := Row.addProperty_names (fun n listed => entered.keeps.holds (drafted.held n listed))
        (Interner.holds_intern _ _ _) }, (grows _).owner.trans own⟩
  · rintro d ⟨drafted, own⟩ b _
    have grows := Row.addBase_grows d.1 b
    exact ⟨{
      sound := Row.addBase_sound drafted.sound b
      grows := drafted.grows.trans grows
      entered := drafted.entered
      held := fun n listed => drafted.held n (by simpa using listed) }, grows.owner.trans own⟩
  · rintro d ⟨drafted, own⟩ e
    have entered : d.2.Entered owner (d.2.intern e.name.text owner).2 := .intern .none e.name.text
    have grows := Row.addEnumValue_grows d.1
    simp only [carryEnumValue, own]
    exact ⟨{
      sound := Row.addEnumValue_sound drafted.sound _
      grows := drafted.grows.trans (grows _)
      entered := drafted.entered.trans entered
      held := Row.addEnumValue_names (fun n listed => entered.keeps.holds (drafted.held n listed))
        (Interner.holds_intern _ _ _) }, (grows _).owner.trans own⟩

end Image

namespace Registry

/-- What merging one type does: it adds a row, replaces the row of its hash, or changes nothing. -/
inductive Merged (options : MergeOptions) (type : Image.ReadType) (r : Registry) :
    Registry → Prop where
  | added (fresh : r.byHash.find? type.typeHash = none) :
      Merged options type r
        ({ r with names := (Image.buildRow r.names type (options.owner.getD type.owner)).2 }.insertRow
          (Image.buildRow r.names type (options.owner.getD type.owner)).1).2
  | replaced {index : Nat} {old : Row} (present : r.types.rowAt? index = some old)
      (same : old.typeHash = type.typeHash) (published : old.published = true)
      (allowed : options.policy = .replace)
      (taken : old.owner = options.owner.getD type.owner ∨ options.crossModule = true) :
      Merged options type r
        ({ r with names := (Image.carryOver
            (Image.buildRow r.names type (options.owner.getD type.owner)) old).2 }.replaceRow index
          (Image.carryOver (Image.buildRow r.names type (options.owner.getD type.owner)) old).1)
  | kept {index : Nat} {old : Row} (present : r.types.rowAt? index = some old)
      (same : old.typeHash = type.typeHash) : Merged options type r r

theorem mergeType_merged {r : Registry} (consistent : r.Consistent) (options : MergeOptions)
    (report : MergeReport) (type : Image.ReadType) :
    Merged options type r (mergeType options (r, report) type).1 := by
  unfold mergeType
  dsimp only
  split
  · rename_i absent
    have fresh : r.byHash.find? type.typeHash = none := by
      cases found : r.byHash.find? type.typeHash with
      | none => rfl
      | some index =>
        obtain ⟨row, present, _⟩ := (consistent.hash_iff _ _).mp found
        simp [found, present] at absent
    exact .added fresh
  · rename_i index old there
    obtain ⟨slot, found, here⟩ := Option.bind_eq_some_iff.mp there
    obtain ⟨row, present, pair⟩ := Option.map_eq_some_iff.mp here
    cases pair
    obtain ⟨other, present', same⟩ := (consistent.hash_iff _ _).mp found
    cases Option.some.inj (present.symm.trans present')
    split
    · rename_i allowed
      simp only [replaces, Bool.and_eq_true, Bool.or_eq_true, decide_eq_true_eq] at allowed
      exact .replaced present same allowed.1.2 allowed.1.1 allowed.2
    · exact .kept present same

theorem typeHash_buildRow {exports : ExportTable} {type : Image.ReadType}
    (backed : type.Backed exports) (names : Interner) (owner : ModuleId) :
    (Image.buildRow names type owner).1.typeHash = type.typeHash :=
  (Image.buildRow_drafted backed names owner).grows.typeHash

/-- A row that replaces an old one has the hash and the owner of the incoming type. -/
theorem carryOver_facts {exports : ExportTable} {type : Image.ReadType}
    (backed : type.Backed exports) (names : Interner) (owner : ModuleId) (old : Row) :
    let draft := Image.carryOver (Image.buildRow names type owner) old
    Image.Drafted owner (Image.skeleton names type owner) names draft ∧
      draft.1.typeHash = type.typeHash ∧ draft.1.owner = owner := by
  have built := Image.buildRow_drafted backed names owner
  obtain ⟨drafted, own⟩ := Image.carryOver_drafted built built.grows.owner old
  exact ⟨drafted, drafted.grows.typeHash, own⟩

theorem Merged.consistent {r s : Registry} {options : MergeOptions} {type : Image.ReadType}
    {exports : ExportTable} (backed : type.Backed exports) (consistent : r.Consistent)
    (merged : Merged options type r s) : s.Consistent := by
  cases merged with
  | added fresh =>
    apply insertRow_consistent (consistent.withNames _)
    rw [typeHash_buildRow backed]
    exact fresh
  | replaced present same published allowed =>
    refine replaceRow_consistent (consistent.withNames _) present ?_
    rw [(carryOver_facts backed _ _ _).2.1, same]
  | kept present same => exact consistent

/-- The registry after some types of an image have been merged in order. -/
inductive MergedAll (options : MergeOptions) (exports : ExportTable) (r : Registry) :
    List Image.ReadType → Registry → Prop where
  | none : MergedAll options exports r [] r
  | next {s t : Registry} {types : List Image.ReadType} {type : Image.ReadType} :
      MergedAll options exports r types s → type.Backed exports → Merged options type s t →
        MergedAll options exports r (types ++ [type]) t

theorem MergedAll.consistent {options : MergeOptions} {exports : ExportTable} {r s : Registry}
    {types : List Image.ReadType} (consistent : r.Consistent)
    (merged : MergedAll options exports r types s) : s.Consistent := by
  induction merged with
  | none => exact consistent
  | next _ backed last ih => exact last.consistent backed ih

theorem foldl_mergeType {options : MergeOptions} {exports : ExportTable} {r : Registry}
    (consistent : r.Consistent) {types : List Image.ReadType}
    (backed : ∀ t ∈ types, t.Backed exports) (report : MergeReport) :
    MergedAll options exports r types (types.foldl (mergeType options) (r, report)).1 := by
  induction types using List.reverseRecOn with
  | nil => exact .none
  | append_singleton types type ih =>
    have before := ih fun t member => backed t (List.mem_append_left _ member)
    rw [List.foldl_append]
    apply before.next (backed type (by simp))
    exact mergeType_merged (before.consistent consistent) options _ type

/-- A merge changes nothing, or it merges all types of the image one after another. -/
theorem merge_merged {r : Registry} (consistent : r.Consistent) (exports : ExportTable)
    (bytes : List UInt8) (options : MergeOptions) :
    (r.merge exports bytes options).2 = r ∨
      ∃ types, Image.decode exports bytes = .ok types ∧
        MergedAll options exports r types (r.merge exports bytes options).2 := by
  unfold merge
  split
  · exact .inl rfl
  · rename_i types decoded
    split
    · exact .inl rfl
    · exact .inr ⟨types, decoded,
        foldl_mergeType consistent (Image.decode_backed decoded) {}⟩

theorem merge_consistent {r : Registry} (consistent : r.Consistent) (exports : ExportTable)
    (bytes : List UInt8) (options : MergeOptions) :
    (r.merge exports bytes options).2.Consistent := by
  rcases merge_merged consistent exports bytes options with same | ⟨types, _, merged⟩
  · rw [same]
    exact consistent
  · exact merged.consistent consistent

end Registry

end TypeCatalog
