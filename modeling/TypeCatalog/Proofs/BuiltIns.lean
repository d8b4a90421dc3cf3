import TypeCatalog.Proofs.Registrations
import TypeCatalog.Proofs.Removal
import TypeCatalog.Proofs.Typing

/-!
Whose the built-in types are. A registration gives them to the host whoever asks for them, an image
says of each row whose it was, and a further description leaves a row with its owner. Only a merge
that names a module puts that in the place of what the image says, for built-in types too. As long
as no such merge adds or replaces one of them, they stay the host's, and the removal of another
module leaves them.
-/
namespace TypeCatalog

/-- Whether a row is the host's if its type is built in. -/
def Row.AtHome (row : Row) : Prop :=
  (PrimitiveKind.ofHash? row.typeHash).isSome → row.owner = .host

theorem Row.AtHome.of_ownerOf {u : Universe} {type : TypeKey} {row : Row} {wanted : ModuleId}
    (hash : row.typeHash = u.hash type) (owner : row.owner = Script.ownerOf u type wanted) :
    row.AtHome := by
  intro builtIn
  rw [owner, Script.ownerOf, if_pos (hash ▸ builtIn)]

theorem Row.AtHome.publish {row : Row} (home : row.AtHome) (draft : Draft) :
    (row.publish draft).AtHome := by
  have grows := publish_grows row draft
  rw [AtHome, grows.typeHash, grows.owner]
  exact home

/-- Whether the built-in types that an image holds are the host's, for whoever knows at least these
slots. -/
def ExportTable.AtHome (exports : ExportTable) (bytes : List UInt8) : Prop :=
  ∀ later : ExportTable, exports.entries <+: later.entries →
    ∀ types, Image.decode later bytes = .ok types →
      ∀ type ∈ types, (PrimitiveKind.ofHash? type.typeHash).isSome → type.owner = .host

namespace Registry

/-- Whether a merge gives no built-in type to another module than the image says: it names none but
the host, or the built-in types of the image have rows already and these are not replaced. -/
def LeavesBuiltIns (r : Registry) (exports : ExportTable) (bytes : List UInt8)
    (options : MergeOptions) : Prop :=
  (∀ m, options.owner = some m → m = .host) ∨
    ∀ types, Image.decode exports bytes = .ok types →
      ∀ type ∈ types, (PrimitiveKind.ofHash? type.typeHash).isSome →
        r.byHash.find? type.typeHash ≠ none ∧
          (options.policy = .replace → options.crossModule = false)

theorem brings_atHome {r : Registry} {exports : ExportTable} {bytes : List UInt8}
    {options : MergeOptions} (leaves : r.LeavesBuiltIns exports bytes options)
    {types : List Image.ReadType} (decoded : Image.decode exports bytes = .ok types)
    {type : Image.ReadType} (listed : type ∈ types) (backed : type.Backed exports)
    (home : (PrimitiveKind.ofHash? type.typeHash).isSome → type.owner = .host) :
    Brings (fun row => row.Sound ∧ row.AtHome) options r type := by
  have incoming : (∀ m, options.owner = some m → m = .host) →
      (PrimitiveKind.ofHash? type.typeHash).isSome →
        options.owner.getD type.owner = .host := by
    intro named builtIn
    cases given : options.owner with
    | none => exact home builtIn
    | some m => exact named m given
  constructor
  · intro absent names
    have built := Image.buildRow_drafted backed names (options.owner.getD type.owner)
    refine ⟨built.sound, fun builtIn => built.grows.owner.trans ?_⟩
    rw [typeHash_buildRow backed] at builtIn
    rcases leaves with named | stay
    · exact incoming named builtIn
    · exact absurd absent (stay types decoded type listed builtIn).1
  · intro names old before same _ replace taken
    obtain ⟨drafted, hash, owner⟩ :=
      carryOver_facts backed names (options.owner.getD type.owner) old
    refine ⟨drafted.sound, fun builtIn => owner.trans ?_⟩
    rw [hash] at builtIn
    rcases leaves with named | stay
    · exact incoming named builtIn
    · -- A row is not replaced on behalf of another module than its own.
      have own := (stay types decoded type listed builtIn).2 replace
      rw [← taken.resolve_right (by rw [own]; exact nofun)]
      exact before.2 (same ▸ builtIn)

end Registry

namespace Archive

variable {u : Universe} {a b : Archive}

/-- What may be done to a registry: types are registered on behalf of any module, and images are
merged that have been written before, under options that leave the built-in types. -/
def Allows (a : Archive) (r : Registry) : Operation → Prop
  | .skeleton u type owner => ∃ wanted, owner = Script.ownerOf u type wanted
  | .merge exports bytes options => bytes ∈ a.images ∧ r.LeavesBuiltIns exports bytes options
  | _ => True

structure Step (u : Universe) (a b : Archive) : Prop where
  step : Catalog.Step u a.catalog b.catalog
  changed : ∀ n, a.catalog.ChangedBy (a.Allows (a.catalog.registry n)) b.catalog n
  images : ∀ bytes ∈ b.images, bytes ∈ a.images ∨ a.Writes b bytes

theorem Step.of_change {c d : Catalog} {images : List (List UInt8)} {n : Nat} {op : Operation}
    (step : Catalog.Step u c d) (after : d.registries = (c.change n op).registries)
    (allowed : Allows ⟨c, images⟩ (c.registry n) op) (permitted : c.Permits d n op) :
    Step u ⟨c, images⟩ ⟨d, images⟩ where
  step := step
  changed := Catalog.changedBy_change_at _ n op allowed permitted after
  images _ := .inl

abbrev Run (u : Universe) (a : Archive) : Prop := Relation.ReflTransGen (Step u) {} a

theorem Run.reachable (run : Run u a) : Catalog.Reachable u a.catalog :=
  Relation.ReflTransGen.lift Archive.catalog (fun _ _ step => step.step) _ _ run

/-- Whether all rows and images leave the built-in types to the host. -/
structure AtHome (a : Archive) : Prop where
  rows : ∀ n index row, (a.catalog.registry n).types.rowAt? index = some row →
    row.Sound ∧ row.AtHome
  images : ∀ bytes ∈ a.images, a.catalog.exports.AtHome bytes

theorem empty_atHome : AtHome {} where
  rows n index row present := by simp [Catalog.registry] at present
  images := by simp

theorem AtHome.rows_of_changed (home : a.AtHome) (reachable : Catalog.Reachable u a.catalog)
    {d : Catalog} {n : Nat}
    (changed : a.catalog.ChangedBy (a.Allows (a.catalog.registry n)) d n) :
    ∀ index row, (d.registry n).types.rowAt? index = some row → row.Sound ∧ row.AtHome := by
  rcases changed with same | ⟨op, allowed, permitted, after⟩
  · rw [same]
    exact home.rows n
  · rw [after]
    refine op.forall_rows (reachable.allConsistent n) (home.rows n) ?_
    cases op with
    | skeleton u type owner =>
      obtain ⟨wanted, rfl⟩ := allowed
      exact ⟨Row.skeleton_sound _ _ _ _ _ _, .of_ownerOf rfl rfl⟩
    | commit h draft =>
      obtain ⟨p, -, -, -, collected⟩ := permitted
      intro old _ before
      exact ⟨Row.publish_sound before.1 (fun m listed => (collected.methods m listed).2)
        fun c listed => (collected.constructors c listed).2, before.2.publish draft⟩
    | merge exports bytes options =>
      obtain rfl : exports = a.catalog.exports := permitted
      intro types decoded type listed backed
      exact Registry.brings_atHome allowed.2 decoded listed backed
        (home.images bytes allowed.1 _ List.prefix_rfl types decoded type listed)
    | _ => trivial

/-- An image that is written says whose the rows are that it is written from. -/
theorem AtHome.image (home : a.AtHome) (reachable : Catalog.Reachable u a.catalog)
    {bytes : List UInt8} (writes : a.Writes b bytes) : b.catalog.exports.AtHome bytes := by
  obtain ⟨n, same, after, fits, aligned⟩ := writes
  have own : ∀ h row, (a.catalog.registry n).row? h = some row → row.Sound ∧ row.AtHome :=
    fun h row shown => home.rows n _ _ (Registry.rowAt?_of_row? shown)
  intro later grown types decoded type listed
  rw [same] at decoded
  rw [after] at grown
  have whole := Catalog.decode_sections reachable (fun h row shown =>
    ⟨(own h row shown).1.methodArity, (own h row shown).1.constructorArity⟩) fits aligned grown
  obtain rfl := Except.ok.inj (decoded.symm.trans whole)
  obtain ⟨row, there, rfl⟩ := List.mem_map.mp listed
  obtain ⟨⟨h, row⟩, member, rfl⟩ := List.mem_map.mp there
  exact (own h row (Registry.mem_publishedRows.mp member)).2

theorem Step.atHome (step : Step u a b) (reachable : Catalog.Reachable u a.catalog)
    (home : a.AtHome) : b.AtHome where
  rows n := home.rows_of_changed reachable (step.changed n)
  images bytes listed := by
    rcases step.images bytes listed with old | writes
    · exact fun later grown => home.images bytes old later
        ((Catalog.exports_grow reachable (.single step.step)).trans grown)
    · exact home.image reachable writes

theorem Run.atHome (run : Run u a) : a.AtHome := by
  induction run with
  | refl => exact empty_atHome
  | tail before step ih => exact step.atHome (Run.reachable before) ih

/-- However types are registered, extended, written and merged, and modules set up and removed, each
row of a built-in type is the host's, and the removal of another module leaves those that are
published, as long as no merge adds or replaces a built-in type on behalf of another module. -/
theorem built_ins_stay_with_host (run : Run u a) (n : Nat) :
    (∀ h row, (a.catalog.registry n).anyRow? h = some row →
      (PrimitiveKind.ofHash? row.typeHash).isSome → row.owner = .host) ∧
    ∀ m, m ≠ .host → ∀ h row, (a.catalog.registry n).row? h = some row →
      (PrimitiveKind.ofHash? row.typeHash).isSome →
        ((a.catalog.registry n).unregisterModule m).2.row? h = some row := by
  have home : ∀ h row, (a.catalog.registry n).anyRow? h = some row → row.AtHome :=
    fun h row there => (run.atHome.rows n _ _ (SlotTable.get?_eq_some_iff.mp there).1).2
  refine ⟨home, fun m named h row shown builtIn => ?_⟩
  refine Registry.row?_unregisterModule.mpr ⟨shown, fun owned => named ?_⟩
  rw [← owned]
  exact home h row (Option.filter_eq_some_iff.mp shown).1 builtIn

/-- Two registries, a built-in type being described in the first of them. -/
def describingNumber : Catalog :=
  let c : Catalog := { registries := [{}, {}] }
  { c.change 0 (.skeleton Gallery.knownTypes Gallery.i32 .host) with
    passes := [c.firstPass Gallery.knownTypes 0 Gallery.i32 .host] }

def describedNumber : Catalog :=
  { describingNumber.change 0 (.commit ⟨0, 0⟩ {}) with passes := [] }

def writtenNumber : Archive where
  catalog := describedNumber.written 0
  images := [(describedNumber.sections 0).image]

theorem describedNumber_run : Run Gallery.knownTypes ⟨describedNumber, []⟩ := by
  let one : Catalog := { registries := [{}] }
  let two : Catalog := { registries := [{}, {}] }
  have first : Step Gallery.knownTypes {} ⟨one, []⟩ :=
    ⟨.move (.create {}), fun n => Catalog.changedBy_create {} trivial n, fun _ => .inl⟩
  have second : Step Gallery.knownTypes ⟨one, []⟩ ⟨two, []⟩ :=
    ⟨.move (.create {}), fun n => Catalog.changedBy_create {} trivial n, fun _ => .inl⟩
  have third : Step Gallery.knownTypes ⟨two, []⟩ ⟨describingNumber, []⟩ :=
    .of_change (.move (.register .host (by decide) rfl)) rfl
      ⟨.host, (Script.ownerOf_host _ _).symm⟩ rfl
  have collected := Draft.empty_madeOf (two.firstPass Gallery.knownTypes 0 Gallery.i32 .host)
  have fourth : Step Gallery.knownTypes ⟨describingNumber, []⟩ ⟨describedNumber, []⟩ :=
    .of_change (.move (.commit rfl collected)) rfl trivial ⟨_, rfl, rfl, rfl, collected⟩
  exact (((Relation.ReflTransGen.single first).tail second).tail third).tail fourth

theorem writtenNumber_run : Run Gallery.knownTypes writtenNumber := by
  have written : (⟨describedNumber, []⟩ : Archive).Writes writtenNumber
      (describedNumber.sections 0).image := by
    have aligned : ∀ shown ∈ (describedNumber.registry 0).publishedRows,
        shown.2.align.toNat < UInt32.size := by
      decide +kernel
    refine ⟨0, rfl, rfl, ?_, fun h row shown => aligned _ (Registry.mem_publishedRows.mpr shown)⟩
    constructor <;> decide +kernel
  exact describedNumber_run.tail ⟨.move (.write 0), fun _ => .inl rfl, fun bytes listed =>
    .inr (List.mem_singleton.mp listed ▸ written)⟩

/-- A merge that names no module brings the built-in type to another registry as the host's. -/
theorem merged_number_stays_with_host :
    let m := ModuleId.ofName "plug"
    let image := (describedNumber.sections 0).image
    let r := ((writtenNumber.catalog.registry 1).merge writtenNumber.catalog.exports image {}).2
    ∃ row, r.row? ⟨⟨0, 0⟩⟩ = some row ∧ row.owner = .host ∧
      (r.unregisterModule m).2.row? ⟨⟨0, 0⟩⟩ = some row := by
  intro m image r
  let merged : Archive := { writtenNumber with
    catalog := writtenNumber.catalog.change 1 (.merge writtenNumber.catalog.exports image {}) }
  have step : Step Gallery.knownTypes writtenNumber merged :=
    .of_change (.overhaul (.merge image {})) rfl ⟨List.mem_singleton_self _, .inl nofun⟩ rfl
  have run : Run Gallery.knownTypes merged := writtenNumber_run.tail step
  have here : merged.catalog.registry 1 = r :=
    (Catalog.registry_change _ 1 _ 1).trans (if_pos ⟨rfl, by decide⟩)
  obtain ⟨home, stays⟩ := built_ins_stay_with_host run 1
  rw [here] at home stays
  have computed : (r.row? ⟨⟨0, 0⟩⟩).any (PrimitiveKind.ofHash? ·.typeHash |>.isSome) = true := by
    decide +kernel
  obtain ⟨row, shown, builtIn⟩ := (Option.any_eq_true _ _).mp computed
  exact ⟨row, shown, home _ row (Option.filter_eq_some_iff.mp shown).1 builtIn,
    stays m (ModuleId.ofName_ne_host _) _ row shown builtIn⟩

/-- A merge that names a module makes a built-in type the module's, and it is removed with it. -/
theorem number_taken_by_merge :
    let m := ModuleId.ofName "plug"
    let image := (describedNumber.sections 0).image
    let r := ((writtenNumber.catalog.registry 1).merge writtenNumber.catalog.exports image
      { owner := some m }).2
    Run Gallery.knownTypes writtenNumber ∧ image ∈ writtenNumber.images ∧
      (r.row? ⟨⟨0, 0⟩⟩).any (fun row =>
        (PrimitiveKind.ofHash? row.typeHash).isSome && row.owner = m) = true ∧
      (r.unregisterModule m).2.row? ⟨⟨0, 0⟩⟩ = none := by
  intro m image r
  have taken : (r.row? ⟨⟨0, 0⟩⟩).any (fun row =>
      (PrimitiveKind.ofHash? row.typeHash).isSome && row.owner = m) = true ∧
      ((r.unregisterModule m).2.row? ⟨⟨0, 0⟩⟩).isNone = true := by
    decide +kernel
  exact ⟨writtenNumber_run, List.mem_singleton_self _, taken.1,
    Option.isNone_iff_eq_none.mp taken.2⟩

end Archive

end TypeCatalog
