import TypeCatalog.Proofs.Catalog

/-!
Handles over whole runs. Beside each catalog stands a tally of the rows that every slot has seen end
since the beginning. As long as no slot has seen 2^32 of them, a slot's generation is its tally, so
a handle whose row has ended stays dead, and a handle that is alive has led to one row all the time.
That row may have grown, but all that it showed it still shows.
-/
namespace TypeCatalog

namespace SlotTable

variable {ρ : Type} {grows : ρ → ρ → Prop} {a b c t : SlotTable ρ}

/-- How many rows of a slot have been replaced or removed from one table to the next: each of them
has begun a generation. -/
def endings (a b : SlotTable ρ) (index : Nat) : Nat :=
  (b.generationAt index - a.generationAt index).toNat

theorem endings_of_same {index : Nat} (same : b.generationAt index = a.generationAt index) :
    a.endings b index = 0 := by
  rw [endings, same, UInt32.sub_self]
  rfl

theorem endings_of_next {index : Nat} (next : b.generationAt index = a.generationAt index + 1) :
    a.endings b index = 1 := by
  rw [endings, next, UInt32.add_comm, UInt32.add_sub_cancel]
  rfl

/-- The generation of each slot is the number of its rows that have ended. -/
def CountedBy (t : SlotTable ρ) (tally : Nat → Nat) : Prop :=
  ∀ index, t.generationAt index = UInt32.ofNat (tally index)

/-- Each slot still has its row of before, which may have grown, or has seen another one end. -/
def Follows (grows : ρ → ρ → Prop) (a b : SlotTable ρ) (before after : Nat → Nat) : Prop :=
  ∀ index,
    (after index = before index ∧
      ∀ row, a.rowAt? index = some row → ∃ later, b.rowAt? index = some later ∧ grows row later) ∨
    before index < after index

theorem Succeeds.endings_le (succeeds : Succeeds grows a b) (index : Nat) :
    a.endings b index ≤ 1 := by
  rcases succeeds index with ⟨same, _⟩ | next
  · rw [endings_of_same same]
    exact Nat.zero_le 1
  · exact Nat.le_of_eq (endings_of_next next)

theorem Succeeds.countedBy (succeeds : Succeeds grows a b) {tally : Nat → Nat}
    (counted : a.CountedBy tally) :
    b.CountedBy fun index => tally index + a.endings b index := by
  intro index
  dsimp only
  rcases succeeds index with ⟨same, _⟩ | next
  · rw [endings_of_same same, same, Nat.add_zero]
    exact counted index
  · rw [endings_of_next next, next, counted index, UInt32.ofNat_add]
    rfl

theorem Succeeds.follows (succeeds : Succeeds grows a b) (tally : Nat → Nat) :
    Follows grows a b tally fun index => tally index + a.endings b index := by
  intro index
  rcases succeeds index with ⟨same, kept⟩ | next
  · refine .inl ⟨?_, kept⟩
    dsimp only
    rw [endings_of_same same, Nat.add_zero]
  · apply Or.inr
    dsimp only
    rw [endings_of_next next]
    exact Nat.lt_succ_self _

theorem Follows.refl (same : ∀ row, grows row row) (t : SlotTable ρ) (tally : Nat → Nat) :
    Follows grows t t tally tally :=
  fun _ => .inl ⟨rfl, fun row present => ⟨row, present, same row⟩⟩

theorem Follows.le {s t : Nat → Nat} (follows : Follows grows a b s t) (index : Nat) :
    s index ≤ t index := by
  rcases follows index with ⟨same, _⟩ | less
  · exact Nat.le_of_eq same.symm
  · exact Nat.le_of_lt less

theorem Follows.trans (chain : ∀ x y z, grows x y → grows y z → grows x z) {s t v : Nat → Nat}
    (first : Follows grows a b s t) (second : Follows grows b c t v) : Follows grows a c s v := by
  intro index
  rcases first index with ⟨same, kept⟩ | less
  · rcases second index with ⟨same', kept'⟩ | less'
    · refine .inl ⟨same'.trans same, fun row present => ?_⟩
      obtain ⟨mid, there, grown⟩ := kept row present
      obtain ⟨later, here, grown'⟩ := kept' mid there
      exact ⟨later, here, chain _ _ _ grown grown'⟩
    · exact .inr (same ▸ less')
  · exact .inr (Nat.lt_of_lt_of_le less (second.le index))

theorem tally_eq {tally other : Nat} (small : tally < UInt32.size) (small' : other < UInt32.size)
    (same : UInt32.ofNat tally = UInt32.ofNat other) : tally = other := by
  have numbers := congrArg UInt32.toNat same
  rwa [UInt32.toNat_ofNat_of_lt' small, UInt32.toNat_ofNat_of_lt' small'] at numbers

variable {s t : Nat → Nat}

/-- A reference that is good before and after tells that no row of its slot has ended between. -/
theorem Follows.unended (follows : Follows grows a b s t) (before : a.CountedBy s)
    (after : b.CountedBy t) {ref : SlotRef} (small : t ref.index < UInt32.size) {old new : ρ}
    (first : a.get? ref = some old) (second : b.get? ref = some new) :
    t ref.index = s ref.index := by
  have generation := (get?_eq_some_iff.mp first).2
  have generation' := (get?_eq_some_iff.mp second).2
  rw [before] at generation
  rw [after] at generation'
  have below := Nat.lt_of_le_of_lt (follows.le ref.index) small
  exact tally_eq small below (generation'.trans generation.symm)

/-- A reference that is good before and not after tells that its row has ended. -/
theorem Follows.ended (follows : Follows grows a b s t) (before : a.CountedBy s)
    (after : b.CountedBy t) {ref : SlotRef} {old : ρ} (first : a.get? ref = some old)
    (gone : b.get? ref = none) : s ref.index < t ref.index := by
  obtain ⟨present, generation⟩ := get?_eq_some_iff.mp first
  rcases follows ref.index with ⟨same, kept⟩ | less
  · obtain ⟨later, there, _⟩ := kept old present
    have generation' : b.generationAt ref.index = ref.generation := by
      rw [after, same, ← before, generation]
    have good := get?_eq_some_iff.mpr ⟨there, generation'⟩
    rw [gone] at good
    contradiction
  · exact less

/-- A reference whose row has ended is never good again. -/
theorem Follows.get?_of_lt (follows : Follows grows a b s t) (before : a.CountedBy s)
    (after : b.CountedBy t) {ref : SlotRef} (small : t ref.index < UInt32.size) {old : ρ}
    (first : a.get? ref = some old) (ended : s ref.index < t ref.index) : b.get? ref = none := by
  cases second : b.get? ref with
  | none => rfl
  | some new =>
    have same := follows.unended before after small first second
    omega

/-- A reference that is good before and after has led to one row, which may have grown. -/
theorem Follows.get?_of_get? (follows : Follows grows a b s t) (before : a.CountedBy s)
    (after : b.CountedBy t) {ref : SlotRef} (small : t ref.index < UInt32.size) {old new : ρ}
    (first : a.get? ref = some old) (second : b.get? ref = some new) : grows old new := by
  have same := follows.unended before after small first second
  rcases follows ref.index with ⟨_, kept⟩ | less
  · obtain ⟨later, present, grown⟩ := kept old (get?_eq_some_iff.mp first).1
    cases Option.some.inj (present.symm.trans (get?_eq_some_iff.mp second).1)
    exact grown
  · omega

end SlotTable

/-- For each registry, how many rows each of its slots has seen end. -/
structure Tally where
  types : Nat → Nat → Nat := fun _ _ => 0
  functions : Nat → Nat → Nat := fun _ _ => 0

def Tally.after (t : Tally) (c d : Catalog) : Tally where
  types n index := t.types n index + (c.registry n).types.endings (d.registry n).types index
  functions n index :=
    t.functions n index + (c.registry n).functions.endings (d.registry n).functions index

/-- No slot has been emptied or filled anew as often as there are generations. -/
structure Tally.Bounded (t : Tally) : Prop where
  types : ∀ n index, t.types n index < UInt32.size
  functions : ∀ n index, t.functions n index < UInt32.size

structure Counted where
  catalog : Catalog := {}
  tally : Tally := {}

namespace Counted

inductive Step (u : Universe) (a : Counted) : Counted → Prop where
  | step {d : Catalog} (step : Catalog.Step u a.catalog d) : Step u a ⟨d, a.tally.after a.catalog d⟩

def Run (u : Universe) : Counted → Counted → Prop := Relation.ReflTransGen (Step u)

/-- A counted catalog whose generations are its tally. -/
structure Good (a : Counted) : Prop where
  consistent : a.catalog.Consistent
  functions : ∀ n, (a.catalog.registry n).functions.FreeExact
  typesCounted : ∀ n, (a.catalog.registry n).types.CountedBy (a.tally.types n)
  functionsCounted : ∀ n, (a.catalog.registry n).functions.CountedBy (a.tally.functions n)

structure Later (a b : Counted) : Prop where
  types : ∀ n, SlotTable.Follows Row.Grows (a.catalog.registry n).types
    (b.catalog.registry n).types (a.tally.types n) (b.tally.types n)
  functions : ∀ n, SlotTable.Follows Eq (a.catalog.registry n).functions
    (b.catalog.registry n).functions (a.tally.functions n) (b.tally.functions n)

variable {u : Universe} {a b c : Counted}

theorem empty_good : Good {} where
  consistent := Catalog.empty_consistent
  functions _ := SlotTable.empty_freeExact
  typesCounted _ _ := rfl
  functionsCounted _ _ := rfl

theorem Later.refl (a : Counted) : Later a a :=
  ⟨fun _ => .refl Row.Grows.refl _ _, fun _ => .refl Eq.refl _ _⟩

theorem Later.trans (first : Later a b) (second : Later b c) : Later a c := by
  constructor
  · intro n
    refine SlotTable.Follows.trans ?_ (first.types n) (second.types n)
    exact fun _ _ _ => Row.Grows.trans
  · intro n
    refine SlotTable.Follows.trans ?_ (first.functions n) (second.functions n)
    exact fun _ _ _ => Eq.trans

theorem Later.bounded (later : a.Later b) (bounded : b.tally.Bounded) : a.tally.Bounded :=
  ⟨fun n index => Nat.lt_of_le_of_lt ((later.types n).le index) (bounded.types n index),
    fun n index => Nat.lt_of_le_of_lt ((later.functions n).le index) (bounded.functions n index)⟩

/-- In one step each slot keeps its row, or sees one row end. -/
theorem succeeds_of_changed {c d : Catalog} {n : Nat} (consistent : (c.registry n).Consistent)
    (free : (c.registry n).functions.FreeExact) (changed : c.Changed d n) :
    SlotTable.Succeeds Row.Grows (c.registry n).types (d.registry n).types ∧
      SlotTable.Succeeds Eq (c.registry n).functions (d.registry n).functions ∧
      (d.registry n).functions.FreeExact := by
  rcases changed with same | ⟨op, _, _, after⟩
  · rw [same]
    exact ⟨.refl Row.Grows.refl _, .refl Eq.refl _, free⟩
  · rw [after]
    exact ⟨Operation.types_succeed consistent op, Operation.functions_succeed consistent free op,
      Operation.functions_free consistent free op⟩

theorem Step.good (step : Step u a b) (good : a.Good) : b.Good ∧ a.Later b := by
  obtain ⟨step⟩ := step
  have succeeds := fun n =>
    succeeds_of_changed (good.consistent n) (good.functions n) (step.changed n)
  refine ⟨⟨?_, ?_, ?_, ?_⟩, ?_, ?_⟩
  · exact fun n => (step.changed n).consistent (good.consistent n)
  · exact fun n => (succeeds n).2.2
  · exact fun n => (succeeds n).1.countedBy (good.typesCounted n)
  · exact fun n => (succeeds n).2.1.countedBy (good.functionsCounted n)
  · exact fun n => (succeeds n).1.follows _
  · exact fun n => (succeeds n).2.1.follows _

theorem Run.good (run : Run u a b) (good : a.Good) : b.Good ∧ a.Later b := by
  induction run with
  | refl => exact ⟨good, .refl a⟩
  | tail _ step ih =>
    obtain ⟨good', later⟩ := ih
    obtain ⟨good'', later'⟩ := step.good good'
    exact ⟨good'', later.trans later'⟩

theorem Run.reachable (run : Run u {} a) : Catalog.Reachable u a.catalog := by
  induction run with
  | refl => exact .refl
  | tail _ step ih =>
    obtain ⟨step⟩ := step
    exact ih.tail step

end Counted

/-- Everything that a member handle of the type leads to in `r`, it leads to in `s`. -/
structure Registry.SameMembers (r s : Registry) (h : TypeHandle) (position : Nat) : Prop where
  field : ∀ x, r.field? (h.member position) = some x → s.field? (h.member position) = some x
  property : ∀ x, r.property? (h.member position) = some x →
    s.property? (h.member position) = some x
  method : ∀ x, r.method? (h.member position) = some x → s.method? (h.member position) = some x
  constructor : ∀ x, r.constructor? (h.member position) = some x →
    s.constructor? (h.member position) = some x
  base : ∀ x, r.base? (h.member position) = some x → s.base? (h.member position) = some x
  enumValue : ∀ x, r.enumValue? (h.member position) = some x →
    s.enumValue? (h.member position) = some x

theorem Registry.sameMembers {r s : Registry} {h : TypeHandle} {old new : Row}
    (before : r.row? h = some old) (after : s.row? h = some new) (grown : old.Grows new)
    (position : Nat) : r.SameMembers s h position := by
  have kept : ∀ {α : Type} {first second : List α} {x : α}, first <+: second →
      first[position]? = some x → second[position]? = some x := by
    intro α first second x extended found
    obtain ⟨rest, rfl⟩ := extended
    exact List.getElem?_append_left (List.getElem?_eq_some_iff.mp found).1 ▸ found
  constructor
  · intro x found
    simp only [field?, TypeHandle.member, before, after, Option.bind_some] at found ⊢
    exact kept grown.fields found
  · intro x found
    simp only [property?, TypeHandle.member, before, after, Option.bind_some] at found ⊢
    exact kept grown.properties found
  · intro x found
    simp only [method?, TypeHandle.member, before, after, Option.bind_some] at found ⊢
    exact kept grown.methods found
  · intro x found
    simp only [constructor?, TypeHandle.member, before, after, Option.bind_some] at found ⊢
    exact kept grown.constructors found
  · intro x found
    simp only [base?, TypeHandle.member, before, after, Option.bind_some] at found ⊢
    exact kept grown.bases found
  · intro x found
    simp only [enumValue?, TypeHandle.member, before, after, Option.bind_some] at found ⊢
    exact kept grown.enumValues found

namespace Counted

variable {u : Universe} {a b c : Counted}

/-- No step ends two rows of one slot. -/
theorem Step.tally_le (step : Step u a b) (good : a.Good) (n index : Nat) :
    b.tally.types n index ≤ a.tally.types n index + 1 ∧
      b.tally.functions n index ≤ a.tally.functions n index + 1 := by
  obtain ⟨step⟩ := step
  obtain ⟨types, functions, _⟩ :=
    succeeds_of_changed (good.consistent n) (good.functions n) (step.changed n)
  exact ⟨Nat.add_le_add_left (types.endings_le index) _,
    Nat.add_le_add_left (functions.endings_le index) _⟩

/-- No slot has seen more rows end than `k`. -/
def AtMost (a : Counted) (k : Nat) : Prop :=
  ∀ n index, a.tally.types n index ≤ k ∧ a.tally.functions n index ≤ k

theorem Step.atMost (step : Step u a b) (good : a.Good) {k : Nat} (few : a.AtMost k) :
    b.AtMost (k + 1) := by
  intro n index
  obtain ⟨types, functions⟩ := step.tally_le good n index
  obtain ⟨types', functions'⟩ := few n index
  exact ⟨by omega, by omega⟩

theorem AtMost.bounded {k : Nat} (few : a.AtMost k) (small : k < UInt32.size) : a.tally.Bounded :=
  ⟨fun n index => Nat.lt_of_le_of_lt (few n index).1 small,
    fun n index => Nat.lt_of_le_of_lt (few n index).2 small⟩

/-- Handles over a whole run in which no slot sees 2^32 rows end. A handle whose row has been
replaced or removed between `a` and `b`, or that is dead at `b` for any reason, is dead at every
later `c`; a type's handle that is alive at `a` and at `c` leads to the same type with the same
members, and more of them at most; a function's handle leads to the same function. -/
theorem handles_keep_their_rows (begun : Run u {} a) (middle : Run u a b) (rest : Run u b c)
    (bounded : c.tally.Bounded) (n : Nat) :
    let before := a.catalog.registry n
    let between := b.catalog.registry n
    let after := c.catalog.registry n
    (∀ h row, before.anyRow? h = some row →
      a.tally.types n h.slot.index < b.tally.types n h.slot.index ∨ between.anyRow? h = none →
      after.anyRow? h = none ∧ after.isAlive h = false) ∧
    (∀ f row, before.functionRow? f = some row →
      a.tally.functions n f.slot.index < b.tally.functions n f.slot.index ∨
        between.functionRow? f = none →
      after.isFunctionAlive f = false) ∧
    (∀ h old new, before.row? h = some old → after.row? h = some new →
      new.typeHash = old.typeHash ∧ new.owner = old.owner ∧ new.size = old.size ∧
      new.align = old.align ∧ ∀ position, before.SameMembers after h position) ∧
    ∀ f old new, before.functionRow? f = some old → after.functionRow? f = some new →
      new = old := by
  obtain ⟨goodA, _⟩ := begun.good empty_good
  obtain ⟨goodB, first⟩ := middle.good goodA
  obtain ⟨goodC, second⟩ := rest.good goodB
  have whole := first.trans second
  refine ⟨?_, ?_, ?_, ?_⟩
  · intro h row alive finished
    have ended := finished.elim id
      ((first.types n).ended (goodA.typesCounted n) (goodB.typesCounted n) alive)
    have dead : (c.catalog.registry n).anyRow? h = none :=
      (whole.types n).get?_of_lt (goodA.typesCounted n) (goodC.typesCounted n)
        (bounded.types n _) alive (Nat.lt_of_lt_of_le ended ((second.types n).le _))
    exact ⟨dead, by rw [Registry.isAlive, Registry.row?, dead]; rfl⟩
  · intro f row alive finished
    have ended := finished.elim id
      ((first.functions n).ended (goodA.functionsCounted n) (goodB.functionsCounted n) alive)
    have dead : (c.catalog.registry n).functionRow? f = none :=
      (whole.functions n).get?_of_lt (goodA.functionsCounted n) (goodC.functionsCounted n)
        (bounded.functions n _) alive (Nat.lt_of_lt_of_le ended ((second.functions n).le _))
    rw [Registry.isFunctionAlive, dead]
    rfl
  · intro h old new alive alive'
    have grown : old.Grows new :=
      (whole.types n).get?_of_get? (goodA.typesCounted n) (goodC.typesCounted n)
        (bounded.types n _) (Option.filter_eq_some_iff.mp alive).1
        (Option.filter_eq_some_iff.mp alive').1
    exact ⟨grown.typeHash, grown.owner, grown.size, grown.align,
      fun position => Registry.sameMembers alive alive' grown position⟩
  · intro f old new alive alive'
    exact ((whole.functions n).get?_of_get? (goodA.functionsCounted n) (goodC.functionsCounted n)
      (bounded.functions n _) alive alive').symm

/-- A handle dies with its module: a type is registered for a module, which is then removed. -/
theorem handle_of_removed_module :
    let u := Gallery.knownTypes
    let h : TypeHandle := ⟨0, 0⟩
    ∃ a b : Counted, Run u {} a ∧ Run u a b ∧ b.tally.Bounded ∧
      (a.catalog.registry 0).isAlive h = true ∧ (b.catalog.registry 0).isAlive h = false := by
  intro u h
  let m : ModuleId := ⟨1⟩
  let empty : Catalog := { registries := [{}] }
  let p := empty.firstPass u 0 (.user "A") m
  let pending : Catalog := { empty.change 0 (.skeleton u (.user "A") m) with passes := [p] }
  let published : Catalog := { pending.change 0 (.commit h {}) with passes := [] }
  let removed : Catalog := published.change 0 (.unregister m)
  let made : Counted := ⟨empty, Tally.after {} {} empty⟩
  let begun : Counted := ⟨pending, made.tally.after empty pending⟩
  let a : Counted := ⟨published, begun.tally.after pending published⟩
  let b : Counted := ⟨removed, a.tally.after published removed⟩
  have first : Step u {} made := .step (.move (.create {}))
  have second : Step u made begun := .step (.move (.register m (by decide) rfl))
  have third : Step u begun a := .step (.move (.commit (p := p) rfl (Draft.empty_madeOf p)))
  have fourth : Step u a b := .step (.overhaul (.unregister m))
  have run : Run u {} a := ((Relation.ReflTransGen.single first).tail second).tail third
  have goodMade := (first.good empty_good).1
  have goodBegun := (second.good goodMade).1
  have goodA := (third.good goodBegun).1
  have bounded : b.tally.Bounded := by
    constructor
    all_goals
      intro n index
      have one := first.tally_le empty_good n index
      have two := second.tally_le goodMade n index
      have three := third.tally_le goodBegun n index
      have four := fourth.tally_le goodA n index
      have zero : ({} : Counted).tally.types n index = 0 ∧
        ({} : Counted).tally.functions n index = 0 := ⟨rfl, rfl⟩
      rw [UInt32.size]
      omega
  have ended : a.tally.types 0 0 < b.tally.types 0 0 := by decide
  exact ⟨a, b, run, .single fourth, bounded, rfl,
    ((handles_keep_their_rows run (.single fourth) .refl bounded 0).1 h _ rfl (.inl ended)).2⟩

end Counted

end TypeCatalog
