import TypeCatalog.Proofs.Catalog
import TypeCatalog.Proofs.Image.Sections
import TypeCatalog.Proofs.Origins

/-!
The numbers of callables and accessors. A number is given once, so no two things that the rows, the
slots and the open descriptions hold have one number; and a slot, once given, is never given again.
-/
namespace TypeCatalog

open Image

variable {known later : Exported → Prop}

theorem Image.MembersKnown.mono {row : Row} (told : MembersKnown known row)
    (more : ∀ e, known e → later e) : MembersKnown later row where
  fields f listed := more _ (told.fields f listed)
  methods m listed := more _ (told.methods m listed)
  constructors c listed := more _ (told.constructors c listed)

/-- What is known of given members is known of a row that has no others. -/
theorem Image.MembersKnown.of_within {row : Row} {fields : List Field} {methods : List Method}
    {constructors : List Constructor} {bases : List BaseLink}
    (within : row.Within fields methods constructors bases)
    (accessors : ∀ f ∈ fields, known (.accessor f.accessor))
    (callables : ∀ m ∈ methods, known (.callable m.callable))
    (makers : ∀ c ∈ constructors, known (.callable c.callable)) : MembersKnown known row :=
  ⟨fun f listed => accessors f (within.fields listed),
    fun m listed => callables m (within.methods listed),
    fun c listed => makers c (within.constructors listed)⟩

theorem Row.publish_known {row : Row} (told : MembersKnown known row) {draft : Draft}
    (fields : ∀ f ∈ draft.fields, known (.accessor f.accessor))
    (methods : ∀ m ∈ draft.methods, known (.callable m.callable))
    (constructors : ∀ c ∈ draft.constructors, known (.callable c.callable)) :
    MembersKnown known (row.publish draft) :=
  .of_within (within_publish row draft) (List.forall_mem_append.mpr ⟨told.fields, fields⟩)
    (List.forall_mem_append.mpr ⟨told.methods, methods⟩)
    (List.forall_mem_append.mpr ⟨told.constructors, constructors⟩)

namespace Image

theorem mem_of_accessor? {t : ExportTable} {slot : UInt64} {a : Accessor}
    (found : t.accessor? slot = some a) : .accessor a ∈ t.entries := by
  unfold ExportTable.accessor? at found
  split at found
  · rename_i b here
    cases Option.some.inj found
    exact List.mem_of_getElem? here
  · contradiction

theorem mem_of_callable? {t : ExportTable} {slot : UInt64} {c : Callable}
    (found : t.callable? slot = some c) : .callable c ∈ t.entries := by
  unfold ExportTable.callable? at found
  split at found
  · rename_i b here
    cases Option.some.inj found
    exact List.mem_of_getElem? here
  · contradiction

/-- What an image brings is in the slots, so it is known. -/
theorem yields_known {exports : ExportTable} (slots : ∀ e ∈ exports.entries, known e)
    {type : ReadType} (backed : type.Backed exports) : Yields (MembersKnown known) type := by
  have built : ∀ names owner, MembersKnown known (buildRow names type owner).1 := by
    intro names owner
    have built := buildRow_built names type owner
    refine ⟨fun f listed => ?_, fun m listed => ?_, fun c listed => ?_⟩
    · obtain ⟨read, there, same⟩ := built.fields f listed
      obtain ⟨slot, found⟩ := backed.fields read there
      exact same ▸ slots _ (mem_of_accessor? found)
    · obtain ⟨read, there, _, _, same⟩ := built.methods m listed
      obtain ⟨_, slot, found⟩ := backed.methods read there
      exact same ▸ slots _ (mem_of_callable? found)
    · obtain ⟨read, there, _, same⟩ := built.constructors c listed
      obtain ⟨_, slot, found⟩ := backed.constructors read there
      exact same ▸ slots _ (mem_of_callable? found)
  refine ⟨built, fun names owner old _ _ => ?_⟩
  have own := built names owner
  exact .of_within (within_carryOver _ old) own.fields own.methods own.constructors

end Image

/-- All rows have known accessors and callables only. -/
def Registry.RowsKnown (known : Exported → Prop) (r : Registry) : Prop :=
  ∀ index row, r.types.rowAt? index = some row → MembersKnown known row

namespace Operation

variable {r : Registry}

/-- A change brings known accessors and callables only. -/
def Brings (known : Exported → Prop) : Operation → Prop
  | commit _ draft => (∀ f ∈ draft.fields, known (.accessor f.accessor)) ∧
      (∀ m ∈ draft.methods, known (.callable m.callable)) ∧
      ∀ c ∈ draft.constructors, known (.callable c.callable)
  | merge exports _ _ => ∀ e ∈ exports.entries, known e
  | _ => True

theorem run_rowsKnown (consistent : r.Consistent) (told : r.RowsKnown known) {op : Operation}
    (brings : op.Brings known) : (op.run r).RowsKnown known := by
  refine forall_rows consistent told ?_
  cases op with
  | skeleton u type owner => constructor <;> simp [Registry.skeletonRow]
  | commit h draft =>
    exact fun old _ told => Row.publish_known told brings.1 brings.2.1 brings.2.2
  | merge exports bytes options =>
    exact fun types _ type _ backed => .of_yields (yields_known brings backed) _ _
  | _ => trivial

end Operation

namespace Catalog

variable {u : Universe} {c d : Catalog}

/-- What the rows, the slots and the open descriptions hold has numbers that have been given, each
to one thing. -/
structure Numbers (c : Catalog) (known : Exported → Prop) : Prop where
  numbered : Numbered known
  given : ∀ e, known e → e.number < c.nextNumber
  slots : ∀ e ∈ c.exports.entries, known e
  rows : ∀ n, (c.registry n).RowsKnown known
  made : ∀ p ∈ c.passes, ∀ e ∈ p.made, known e

theorem empty_numbers : Numbers {} fun _ => False where
  numbered _ _ first := first.elim
  given _ := False.elim
  slots := by simp [ExportTable.empty]
  rows n index row present := by simp [registry] at present
  made := by simp

theorem numbered_push (numbered : Numbered known) {e : Exported}
    (new : ∀ x, known x → x.number ≠ e.number) : Numbered fun x => known x ∨ x = e := by
  rintro a b (first | rfl) (second | rfl) same
  · exact numbered a b first second same
  · exact absurd same (new a first)
  · exact absurd same.symm (new b second)
  · rfl

theorem publishedRows_known {r : Registry} (told : r.RowsKnown known) :
    ∀ row ∈ r.publishedRows.map (·.2), MembersKnown known row := by
  intro row listed
  obtain ⟨⟨h, own⟩, member, rfl⟩ := List.mem_map.mp listed
  exact told _ _ (Registry.rowAt?_of_row? (Registry.mem_publishedRows.mp member))

/-- Writing an image gives slots to what had none. -/
theorem Numbers.written (numbers : c.Numbers known) (n : Nat) :
    c.exports.entries <+: (ofRegistry (c.registry n) c.exports).2.entries ∧
      ∀ e ∈ (ofRegistry (c.registry n) c.exports).2.entries, known e := by
  have goes := Sections.ofRows_goes numbers.numbered numbers.slots
    (publishedRows_known (numbers.rows n))
  exact ⟨goes.grown.slots, goes.hold.slots⟩

theorem Changed.rowsKnown {n : Nat} (changed : c.Changed d n) (consistent : c.Consistent)
    (numbers : c.Numbers known) : (d.registry n).RowsKnown known := by
  rcases changed with same | ⟨op, _, permitted, after⟩
  · exact same ▸ numbers.rows n
  · rw [after]
    apply Operation.run_rowsKnown (consistent n) (numbers.rows n)
    cases op with
    | commit h draft =>
      obtain ⟨p, top, _, _, collected⟩ := permitted
      have made := numbers.made p (top ▸ List.mem_cons_self)
      exact ⟨fun f listed => made _ (collected.fields f listed),
        fun m listed => made _ (collected.methods m listed).1,
        fun k listed => made _ (collected.constructors k listed).1⟩
    | merge exports bytes options =>
      have same : exports = c.exports := permitted
      exact same ▸ numbers.slots
    | _ => trivial

/-- What is made under the next number is a new thing. -/
theorem Numbers.making (numbers : c.Numbers known) {p : OpenPass} {rest : List OpenPass}
    (top : c.passes = p :: rest) {e : Exported} (next : e.number = c.nextNumber) :
    Numbers { c with
      nextNumber := c.nextNumber + 1
      passes := { p with made := p.made ++ [e] } :: rest } fun x => known x ∨ x = e where
  numbered := numbered_push numbers.numbered fun x told =>
    next ▸ Nat.ne_of_lt (numbers.given x told)
  given := by
    rintro x (told | rfl)
    · exact Nat.lt_succ_of_lt (numbers.given x told)
    · exact Nat.lt_succ_of_le (Nat.le_of_eq next)
  slots x listed := .inl (numbers.slots x listed)
  rows n index row present := (numbers.rows n index row present).mono fun x told => .inl told
  made q listed x held := by
    have before : ∀ q ∈ c.passes, ∀ x ∈ q.made, known x := numbers.made
    rw [top] at before
    rcases List.mem_cons.mp listed with rfl | old
    · rcases List.mem_append.mp held with own | new
      · exact .inl (before p List.mem_cons_self x own)
      · exact .inr (List.mem_singleton.mp new)
    · exact .inl (before q (List.mem_cons_of_mem p old) x held)

/-- Slots stay, and at most one thing becomes known, under the next number. -/
theorem Step.numbers (step : Step u c d) (consistent : c.Consistent) (numbers : c.Numbers known) :
    c.exports.entries <+: d.exports.entries ∧ ∃ later, d.Numbers later := by
  have rows := fun n => (step.changed n).rowsKnown consistent numbers
  have same : c.exports.entries <+: c.exports.entries := List.prefix_rfl
  have tail : ∀ {p : OpenPass} {rest : List OpenPass}, c.passes = p :: rest →
      ∀ q ∈ rest, ∀ e ∈ q.made, known e :=
    fun top q listed => numbers.made q (top ▸ List.mem_cons_of_mem _ listed)
  cases step with
  | overhaul overhaul =>
    cases overhaul with
    | merge bytes options => exact ⟨same, known, { numbers with rows }⟩
    | unregister m => exact ⟨same, known, { numbers with rows }⟩
  | move move =>
    cases move with
    | create config => exact ⟨same, known, { numbers with rows }⟩
    | intern n text user => exact ⟨same, known, { numbers with rows }⟩
    | declare n m name => exact ⟨same, known, { numbers with rows }⟩
    | markInitialized n m => exact ⟨same, known, { numbers with rows }⟩
    | addFunction n owner name params returnType callable =>
      exact ⟨same, known, { numbers with rows }⟩
    | number =>
      exact ⟨same, known, { numbers with
        given := fun e told => Nat.lt_succ_of_lt (numbers.given e told), rows }⟩
    | write n =>
      obtain ⟨grown, slots⟩ := numbers.written n
      exact ⟨grown, known, { numbers with slots, rows }⟩
    | register owner within absent =>
      refine ⟨same, known, { numbers with rows, made := fun p listed => ?_ }⟩
      rcases List.mem_cons.mp listed with rfl | old
      · simp [firstPass]
      · exact numbers.made p old
    | extend type h within =>
      refine ⟨same, known, { numbers with rows, made := fun p listed => ?_ }⟩
      rcases List.mem_cons.mp listed with rfl | old
      · simp [laterPass]
      · exact numbers.made p old
    | @enter p rest top text =>
      refine ⟨same, known, { numbers with rows, made := fun q listed => ?_ }⟩
      rcases List.mem_cons.mp listed with rfl | old
      · exact numbers.made p (top ▸ List.mem_cons_self)
      · exact tail top q old
    | make top next =>
      exact ⟨same, _, numbers.making top next⟩
    | commit top collected => exact ⟨same, known, { numbers with rows, made := tail top }⟩
    | abandon top first => exact ⟨same, known, { numbers with rows, made := tail top }⟩
    | drop top first => exact ⟨same, known, { numbers with rows, made := tail top }⟩

theorem Reachable.numbers (reachable : Reachable u c) : ∃ known, c.Numbers known := by
  induction reachable with
  | refl => exact ⟨_, empty_numbers⟩
  | tail before step ih =>
    obtain ⟨known, numbers⟩ := ih
    exact (step.numbers (Reachable.allConsistent before) numbers).2

/-- What has been given a slot keeps it for ever. -/
theorem exports_grow (reachable : Reachable u c) (run : Relation.ReflTransGen (Step u) c d) :
    c.exports.entries <+: d.exports.entries := by
  induction run with
  | refl => exact List.prefix_rfl
  | tail before step ih =>
    have here := Relation.ReflTransGen.trans reachable before
    obtain ⟨known, numbers⟩ := Reachable.numbers here
    exact ih.trans (step.numbers (Reachable.allConsistent here) numbers).1

end Catalog

end TypeCatalog
