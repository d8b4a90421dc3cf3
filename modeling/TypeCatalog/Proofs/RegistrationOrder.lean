import TypeCatalog.Proofs.Portraying

/-!
The order in which types are registered. What is asked for in the course of it is the same in any
order, and each row is the portrait of its type; so a registry that was empty ends with the same
rows, apart from numbers. The order does matter to types that have one hash, and to what a type with
the hash of a built-in type refers to.
-/
namespace TypeCatalog

namespace Script

open Play

variable {w : World} {n : Nat} {family : List TypeKey} {s : Session}

/-- What is asked for when types are registered for a module, one after another. -/
def World.AskedBy (w : World) (types : List TypeKey) (m : ModuleId) (q : TypeKey × ModuleId) :
    Prop :=
  ∃ type ∈ types, Relation.ReflTransGen w.Asks (type, m) q

/-- Whether the types of a family are told apart by their hashes. -/
def World.Distinct (w : World) (family : List TypeKey) : Prop :=
  ∀ a ∈ family, ∀ b ∈ family, w.types.hash a = w.types.hash b → a = b

theorem World.Closed.asked (closed : w.Closed family) {types : List TypeKey}
    (listed : types ⊆ family) {m : ModuleId} {q : TypeKey × ModuleId}
    (asked : w.AskedBy types m q) : q.1 ∈ family := by
  obtain ⟨type, member, asks⟩ := asked
  induction asks with
  | refl => exact listed member
  | tail _ asks ih =>
    obtain ⟨⟨decl, declared, mentioned⟩, -⟩ := asks
    exact closed.mentioned _ ih decl declared mentioned

/-- Types of a family that are registered in an empty registry, one after another: it shows the
types that are asked for, and each row is the portrait of its type. -/
theorem registered_in_empty {types : List TypeKey} (closed : w.Closed family)
    (apart : w.BuiltInsApart family) (distinct : w.Distinct family) (steady : s.Steady n none)
    (empty : ∀ h, (s.registry n).anyRow? h = none) (listed : types ⊆ family) (m : ModuleId) :
    ∃ t,
      (∀ depth, 3 * family.length < depth →
        (types.forM fun type => discard (register w depth n m type)).outcome s = (.ok (), t)) ∧
      (∀ hash, (∃ g row, (t.registry n).row? g = some row ∧ row.typeHash = hash) ↔
        ∃ q, w.AskedBy types m q ∧ w.types.hash q.1 = hash) ∧
      ∀ g row, (t.registry n).row? g = some row → ∃ type ∈ family,
        row.typeHash = w.types.hash type ∧ row.unnumbered =
          w.portrait (s.registry n).config type (ownerOf w.types type m) := by
  have few : (lacking w family (s.registry n)).length ≤ family.length := List.length_filter_le _ _
  have reach : ∀ type ∈ types, ∀ q, Relation.ReflTransGen w.Asks (type, m) q →
      w.AskedBy types m q := fun type member q asks => ⟨type, member, asks⟩
  obtain ⟨_, t, entered, there, ends⟩ :=
    (registers_covered n family.length).needs steady (closed.covers _) few listed reach
  have portraying : Portraying w n family (types.forM fun type =>
      discard (register w (3 * family.length + 1) n m type)) s _ :=
    (portraysAt n _).needs steady (closed.covers _) listed
  obtain ⟨portrayed, -⟩ := portraying _ t (ends _ (Nat.le_refl _))
  have consistent := portrayed.retained.consistent
  have shown : ∀ {hash}, (t.registry n).Knows hash →
      ∃ g row, (t.registry n).row? g = some row ∧ row.typeHash = hash := by
    rintro hash ⟨⟨g, row⟩, found⟩
    obtain ⟨here, same⟩ := consistent.of_anyByHash? found
    exact ⟨g, row, Option.filter_eq_some_iff.mpr ⟨here, (entered.added (empty g) here).published⟩,
      same⟩
  refine ⟨t, fun depth enough => ends depth enough, fun hash => ⟨?_, ?_⟩, fun g row alive => ?_⟩
  · rintro ⟨g, row, alive, rfl⟩
    have here := (Option.filter_eq_some_iff.mp alive).1
    obtain ⟨q, asked, hash, -⟩ := (entered.added (empty g) here).origin
    exact ⟨q, asked, hash.symm⟩
  · rintro ⟨q, ⟨type, member, asks⟩, rfl⟩
    refine shown ?_
    induction asks with
    | refl => exact there type member
    | @tail a b before asks ih =>
      -- The row of the type that asks is a portrait, so all that the type mentions is there.
      obtain ⟨g, row, alive, hash⟩ := shown ih
      obtain ⟨other, inside, hash', -, known⟩ :=
        portrayed.rows (empty g) (Option.filter_eq_some_iff.mp alive).1
      obtain ⟨⟨decl, declared, mentioned⟩, -⟩ := asks
      have same : other = a.1 := distinct other inside a.1
        (closed.asked listed ⟨type, member, before⟩) (hash'.symm.trans hash)
      exact known decl (same ▸ declared) b.1 mentioned
  · have here := (Option.filter_eq_some_iff.mp alive).1
    obtain ⟨type, inside, hash, portrait, -⟩ := portrayed.rows (empty g) here
    obtain ⟨q, asked, hash', owner, -⟩ := (entered.added (empty g) here).origin
    have same : q.1 = type :=
      distinct q.1 (closed.asked listed asked) type inside (hash'.symm.trans hash)
    obtain ⟨first, member, asks⟩ := asked
    rw [ownerOf_of_asks closed apart (listed member) asks, same] at owner
    rw [portrayed.config, owner] at portrait
    exact ⟨type, inside, hash, portrait⟩

open Catalog in
/-- The order in which types of a finite family are registered for a module, in a registry that has
no rows, makes no difference but for numbers, as long as the descriptions only declare members, no
two types of the family have one hash, and its built-in types refer to built-in types only. In both
orders all registrations come to their ends, the types are there afterwards along with the same
other hashes, and the rows of a hash say the same: they agree in all but the ids of names, the
numbers of callables and the indexes by these ids. -/
theorem registration_order_irrelevant {s' : Session} {n' : Nat} {passes passes' : List OpenPass}
    {types types' : List TypeKey} (closed : w.Closed family) (apart : w.BuiltInsApart family)
    (distinct : w.Distinct family) (reachable : Reachable w.types (s.catalog passes))
    (reachable' : Reachable w.types (s'.catalog passes')) (within : n < s.registries.length)
    (within' : n' < s'.registries.length) (empty : ∀ h, (s.registry n).anyRow? h = none)
    (empty' : ∀ h, (s'.registry n').anyRow? h = none)
    (config : (s'.registry n').config = (s.registry n).config) (listed : types ⊆ family)
    (order : types.Perm types') (m : ModuleId) :
    ∃ t t',
      (∀ depth, 3 * family.length < depth →
        (types.forM fun type => discard (register w depth n m type)).outcome s = (.ok (), t)) ∧
      (∀ depth, 3 * family.length < depth →
        (types'.forM fun type => discard (register w depth n' m type)).outcome s' = (.ok (), t')) ∧
      (∀ type ∈ types,
        ∃ g row, (t.registry n).row? g = some row ∧ row.typeHash = w.types.hash type) ∧
      (∀ hash, (∃ g row, (t.registry n).row? g = some row ∧ row.typeHash = hash) ↔
        ∃ g row, (t'.registry n').row? g = some row ∧ row.typeHash = hash) ∧
      ∀ g row g' row', (t.registry n).row? g = some row → (t'.registry n').row? g' = some row' →
        row.typeHash = row'.typeHash → row.unnumbered = row'.unnumbered := by
  have steady : s.Steady n none := ⟨within, reachable.allConsistent n, nofun⟩
  have steady' : s'.Steady n' none := ⟨within', reachable'.allConsistent n', nofun⟩
  obtain ⟨t, ends, hashes, rows⟩ := registered_in_empty closed apart distinct steady empty listed m
  obtain ⟨t', ends', hashes', rows'⟩ := registered_in_empty closed apart distinct steady' empty'
    (List.Subset.trans order.symm.subset listed) m
  have asked : w.AskedBy types m = w.AskedBy types' m := by
    funext q
    simp only [World.AskedBy, order.mem_iff]
  refine ⟨t, t', ends, ends', fun type member => ?_, fun hash => ?_,
    fun g row g' row' alive alive' same => ?_⟩
  · exact (hashes _).mpr ⟨(type, m), ⟨type, member, .refl⟩, rfl⟩
  · rw [hashes, hashes', asked]
  · obtain ⟨type, inside, hash, portrait⟩ := rows g row alive
    obtain ⟨type', inside', hash', portrait'⟩ := rows' g' row' alive'
    obtain rfl : type = type' :=
      distinct type inside type' inside' (hash.symm.trans (same.trans hash'))
    rw [portrait, portrait', config]

/-- Two types that refer to each other are registered in either order: each has its slot as its turn
came, and the rows say the same. -/
theorem referring_types_in_either_order :
    let m := ModuleId.ofName "zoo"
    let a := referringWorld.types.hash (.user "A")
    ∃ t t',
      (∀ depth, 9 < depth → (List.forM [TypeKey.user "A", .user "B"] fun type =>
        discard (register referringWorld depth 0 m type)).outcome oneRegistry = (.ok (), t)) ∧
      (∀ depth, 9 < depth → (List.forM [TypeKey.user "B", .user "A"] fun type =>
        discard (register referringWorld depth 0 m type)).outcome oneRegistry = (.ok (), t')) ∧
      (t.registry 0).typeByHash? a = some ⟨0, 0⟩ ∧ (t'.registry 0).typeByHash? a = some ⟨1, 0⟩ ∧
      ∀ g row g' row', (t.registry 0).row? g = some row → (t'.registry 0).row? g' = some row' →
        row.typeHash = row'.typeHash → row.unnumbered = row'.unnumbered := by
  have distinct : referringWorld.Distinct [.user "A", .user "B", Gallery.i32] := by
    unfold World.Distinct
    decide +kernel
  have begun : Catalog.Reachable referringWorld.types (oneRegistry.catalog []) :=
    oneRegistry_reachable _
  have within : 0 < oneRegistry.registries.length := Nat.one_pos
  have order : [TypeKey.user "A", .user "B"].Perm [.user "B", .user "A"] := .swap _ _ _
  obtain ⟨t, t', ends, ends', -, -, rows⟩ := registration_order_irrelevant referringWorld_closed
    referringWorld_apart distinct begun begun within within (fun _ => rfl) (fun _ => rfl) rfl
    (by simp) order (.ofName "zoo")
  have first : (((List.forM [TypeKey.user "A", .user "B"] fun type =>
      discard (register referringWorld 10 0 (.ofName "zoo") type)).outcome oneRegistry).2.registry
        0).typeByHash? (referringWorld.types.hash (.user "A")) = some ⟨0, 0⟩ := by decide +kernel
  have second : (((List.forM [TypeKey.user "B", .user "A"] fun type =>
      discard (register referringWorld 10 0 (.ofName "zoo") type)).outcome oneRegistry).2.registry
        0).typeByHash? (referringWorld.types.hash (.user "A")) = some ⟨1, 0⟩ := by decide +kernel
  rw [ends 10 (by decide)] at first
  rw [ends' 10 (by decide)] at second
  exact ⟨t, t', ends, ends', first, second, rows⟩

/-- The order does make a difference between two types of one hash, of which the first is registered
and the second found, and to the owner of a type that one with the hash of a built-in refers to. -/
theorem order_decides_between_types :
    let m := ModuleId.ofName "zoo"
    let ran types := (List.forM types fun type =>
      discard (register confusedWorld 10 0 m type)).outcome oneRegistry
    let shown types type := ((ran types).2.registry 0).byHash? (confusedWorld.types.hash type)
    let twin := TypeKey.user "Twin1"
    let other := TypeKey.user "Twin2"
    let fake := TypeKey.user "Fake"
    let a := TypeKey.user "A"
    confusedWorld.Closed [twin, other, fake, a] ∧
      (∀ types ∈ [[twin, other], [other, twin], [fake, a], [a, fake]], (ran types).1.isOk) ∧
      ((shown [twin, other] twin).map (·.2.size) = some 4 ∧
        (shown [other, twin] twin).map (·.2.size) = some 24) ∧
      (shown [fake, a] a).map (·.2.owner) = some .host ∧
      (shown [a, fake] a).map (·.2.owner) = some (.ofName "zoo") :=
  ⟨confusedWorld_closed _ (by simp), by decide +kernel⟩

end Script

end TypeCatalog
