import TypeCatalog.Interner

/-!
Names in the table. A module holds a name that it alone owns or that is shared; entering a text takes
no name away from anyone, and evicting a module takes names away from that module only.
-/
namespace TypeCatalog

namespace Interner

/-- A name that stays in the table as long as `user` does. -/
def Holds (names : Interner) (user : ModuleId) (name : Name) : Prop :=
  ∃ entry, names.entryAt? name.id = some entry ∧ entry.text = name.text ∧
    (entry.owner = none ∨ entry.owner = some user)

theorem entryAt?_of_find? {names : Interner} {text : String} {id : NameId}
    (found : names.find? text = some id) :
    ∃ entry, names.entryAt? id = some entry ∧ entry.text = text :=
  (names.agree.found text id).mp found

theorem find?_of_entryAt? {names : Interner} {id : NameId} {entry : NameEntry}
    (found : names.entryAt? id = some entry) : names.find? entry.text = some id :=
  (names.agree.found entry.text id).mpr ⟨entry, found, rfl⟩

theorem text_ne_of_find? {names : Interner} {text : String} (absent : names.find? text = none)
    {id : NameId} {entry : NameEntry} (found : names.entryAt? id = some entry) :
    entry.text ≠ text := by
  rintro rfl
  cases absent.symm.trans (find?_of_entryAt? found)

theorem id_eq_of_text {names : Interner} {a b : NameId} {x y : NameEntry}
    (first : names.entryAt? a = some x) (second : names.entryAt? b = some y)
    (same : x.text = y.text) : a = b :=
  Option.some.inj ((find?_of_entryAt? first).symm.trans (same ▸ find?_of_entryAt? second))

theorem owner_ne_host {names : Interner} {id : NameId} {entry : NameEntry}
    (found : names.entryAt? id = some entry) : entry.owner ≠ some .host :=
  names.agree.unowned id entry found

theorem Holds.find? {names : Interner} {user : ModuleId} {name : Name}
    (held : names.Holds user name) : names.find? name.text = some name.id := by
  obtain ⟨entry, found, same, _⟩ := held
  exact same ▸ find?_of_entryAt? found

/-- The id of a name that is held leads to the name. -/
theorem Holds.name? {names : Interner} {user : ModuleId} {name : Name}
    (held : names.Holds user name) : names.name? name.id = some name := by
  obtain ⟨entry, found, same, -⟩ := held
  rw [Interner.name?, found, Option.map_some, same]

/-- A name that is held is found by its own text only. -/
theorem Holds.find?_iff {names : Interner} {user : ModuleId} {name : Name}
    (held : names.Holds user name) {text : String} :
    names.find? text = some name.id ↔ text = name.text := by
  refine ⟨fun found => ?_, fun same => same ▸ held.find?⟩
  obtain ⟨entry, there, rfl⟩ := entryAt?_of_find? found
  obtain ⟨stored, here, same, -⟩ := held
  cases Option.some.inj (there.symm.trans here)
  exact same

/-- Two held names with one text are one name. -/
theorem Holds.eq_of_text {names : Interner} {user other : ModuleId} {a b : Name}
    (first : names.Holds user a) (second : names.Holds other b) (same : a.text = b.text) :
    a = b := by
  have ids := Option.some.inj (first.find?.symm.trans (same ▸ second.find?))
  cases a
  cases b
  simp_all

theorem Holds.eq_of_id {names : Interner} {user other : ModuleId} {a b : Name}
    (first : names.Holds user a) (second : names.Holds other b) (same : a.id = b.id) : a = b := by
  obtain ⟨x, atFirst, textFirst, _⟩ := first
  obtain ⟨y, atSecond, textSecond, _⟩ := second
  have entries : x = y := Option.some.inj (atFirst.symm.trans (same ▸ atSecond))
  cases a
  cases b
  simp_all

/-- What the host holds is shared, so every module holds it. -/
theorem Holds.of_host {names : Interner} {name : Name} (held : names.Holds .host name)
    (user : ModuleId) : names.Holds user name := by
  obtain ⟨entry, found, same, owner⟩ := held
  exact ⟨entry, found, same, .inl (owner.resolve_right (owner_ne_host found))⟩

theorem intern_of_found {names : Interner} {text : String} {id : NameId}
    (found : names.find? text = some id) (user : ModuleId) :
    names.intern text user = (⟨id, text⟩, names.share id user) := by
  obtain ⟨entry, there, same⟩ := entryAt?_of_find? found
  have present := present?_eq_some_iff.mpr ⟨there, same⟩
  unfold intern
  split
  · rename_i known
    cases present.symm.trans known
    rw [same]
  · rename_i known
    cases present.symm.trans known

theorem intern_of_absent {names : Interner} {text : String} (absent : names.find? text = none)
    (user : ModuleId) :
    names.intern text user =
      (⟨⟨names.entries.length⟩, text⟩, names.add text user absent) := by
  unfold intern
  split
  · rename_i known
    cases (present?_eq_none_iff.mpr absent).symm.trans known
  · rfl

@[simp] theorem intern_text (names : Interner) (text : String) (user : ModuleId) :
    (names.intern text user).1.text = text := by
  cases known : names.find? text with
  | none => rw [intern_of_absent known]
  | some id => rw [intern_of_found known]

theorem entryAt?_share (names : Interner) (id other : NameId) (user : ModuleId) :
    (names.share id user).entryAt? other =
      if other = id then (names.entryAt? id).map (·.sharedWith user) else names.entryAt? other :=
  NameEntry.at?_modify names.entries id other (·.sharedWith user)

theorem entryAt?_add {names : Interner} {text : String} (absent : names.find? text = none)
    (user : ModuleId) (id : NameId) :
    (names.add text user absent).entryAt? id =
      if id.number = names.entries.length then some (.of text user) else names.entryAt? id :=
  NameEntry.at?_push names.entries (.of text user) id

/-- After a text has been entered, every entry is an old one, the one of the text with one more user,
or a new one. -/
theorem entryAt?_intern_cases {names : Interner} {text : String} {user : ModuleId} {id : NameId}
    {entry : NameEntry} (found : (names.intern text user).2.entryAt? id = some entry) :
    names.entryAt? id = some entry ∨
      (∃ old, names.entryAt? id = some old ∧ old.text = text ∧ entry = old.sharedWith user) ∨
      (names.find? text = none ∧ id.number = names.entries.length ∧ entry = .of text user) := by
  cases known : names.find? text with
  | none =>
    rw [intern_of_absent known, entryAt?_add] at found
    split at found
    · rename_i last
      exact .inr (.inr ⟨rfl, last, (Option.some.inj found).symm⟩)
    · exact .inl found
  | some here =>
    rw [intern_of_found known, entryAt?_share] at found
    split at found
    · rename_i same
      obtain ⟨old, stored, text⟩ := entryAt?_of_find? known
      rw [stored] at found
      exact .inr (.inl ⟨old, same ▸ stored, text, (Option.some.inj found).symm⟩)
    · exact .inl found

theorem entryAt?_intern_of_entryAt? {names : Interner} {id : NameId} {old : NameEntry}
    (stored : names.entryAt? id = some old) (text : String) (user : ModuleId) :
    ∃ entry, (names.intern text user).2.entryAt? id = some entry ∧ entry.text = old.text ∧
      (entry.owner = none ∨ entry.owner = old.owner) := by
  cases known : names.find? text with
  | none =>
    rw [intern_of_absent known, entryAt?_add, if_neg (Nat.ne_of_lt (NameEntry.lt_of_at? stored))]
    exact ⟨old, stored, rfl, .inr rfl⟩
  | some here =>
    rw [intern_of_found known, entryAt?_share]
    by_cases same : id = here
    · subst same
      rw [if_pos rfl, stored]
      exact ⟨old.sharedWith user, rfl, old.sharedWith_text user,
        (old.sharedWith_owner user).imp_right And.left⟩
    · exact ⟨old, by rw [if_neg same, stored], rfl, .inr rfl⟩

theorem Holds.intern {names : Interner} {user : ModuleId} {name : Name}
    (held : names.Holds user name) (text : String) (other : ModuleId) :
    (names.intern text other).2.Holds user name := by
  obtain ⟨old, stored, same, owner⟩ := held
  obtain ⟨entry, found, texts, kept⟩ := entryAt?_intern_of_entryAt? stored text other
  refine ⟨entry, found, texts.trans same, ?_⟩
  rcases kept with none | kept
  · exact .inl none
  · exact kept ▸ owner

theorem holds_intern (names : Interner) (text : String) (user : ModuleId) :
    (names.intern text user).2.Holds user (names.intern text user).1 := by
  cases known : names.find? text with
  | none =>
    rw [intern_of_absent known]
    refine ⟨.of text user, by rw [entryAt?_add, if_pos rfl], rfl, ?_⟩
    unfold NameEntry.of
    dsimp only
    split
    · exact .inl rfl
    · exact .inr rfl
  | some id =>
    obtain ⟨old, stored, same⟩ := entryAt?_of_find? known
    rw [intern_of_found known]
    refine ⟨old.sharedWith user, by rw [entryAt?_share, if_pos rfl, stored, Option.map_some],
      (old.sharedWith_text user).trans same, ?_⟩
    exact (old.sharedWith_owner user).imp_right fun kept => kept.1.trans kept.2

theorem sharedWith_eq {entry : NameEntry} {user : ModuleId}
    (owner : entry.owner = none ∨ entry.owner = some user) : entry.sharedWith user = entry := by
  obtain ⟨text, _⟩ := entry
  unfold NameEntry.sharedWith
  rcases owner with rfl | rfl <;> simp

/-- Entering a name that the module holds changes nothing. -/
theorem intern_of_holds {names : Interner} {user : ModuleId} {name : Name}
    (held : names.Holds user name) : names.intern name.text user = (name, names) := by
  have found := held.find?
  obtain ⟨entry, stored, -, owner⟩ := held
  have slot := NameEntry.at?_eq_some_iff.mp stored
  have same : names.entries.modify name.id.number (·.map (·.sharedWith user)) = names.entries := by
    refine List.ext_getElem? fun number => ?_
    rw [List.getElem?_modify]
    by_cases here : name.id.number = number
    · simp [← here, slot, sharedWith_eq owner]
    · simp [here]
  rw [intern_of_found found]
  exact congrArg (Prod.mk name) (Interner.ext same rfl)

/-- The table after texts have been entered on behalf of a module. -/
inductive Entered (user : ModuleId) (names : Interner) : Interner → Prop where
  | none : Entered user names names
  | intern {mid : Interner} : Entered user names mid → (text : String) →
      Entered user names (mid.intern text user).2

theorem Entered.trans {user : ModuleId} {a b c : Interner} (first : Entered user a b)
    (second : Entered user b c) : Entered user a c := by
  induction second with
  | none => exact first
  | intern _ text ih => exact ih.intern text

/-- Every module holds in a later table what it held in an earlier one. -/
structure Keeps (a b : Interner) : Prop where
  holds : ∀ {user name}, a.Holds user name → b.Holds user name

theorem Keeps.refl (names : Interner) : names.Keeps names := ⟨id⟩

theorem Keeps.trans {a b c : Interner} (first : a.Keeps b) (second : b.Keeps c) : a.Keeps c :=
  ⟨second.holds ∘ first.holds⟩

theorem Entered.keeps {user : ModuleId} {a b : Interner} (entered : Entered user a b) :
    a.Keeps b := by
  induction entered with
  | none => exact .refl a
  | intern _ text ih => exact ih.trans ⟨fun held => held.intern text user⟩

theorem entryAt?_evict (names : Interner) (m : ModuleId) (id : NameId) :
    (names.evict m).2.entryAt? id =
      (names.entryAt? id).filter fun entry => m.isHost || entry.owner ≠ some m := by
  unfold evict
  cases host : m.isHost with
  | true => cases stored : names.entryAt? id <;> simp [Option.filter, stored]
  | false =>
    simp only [Bool.false_eq_true, if_false, Bool.false_or, decide_not]
    exact NameEntry.at?_filter names.entries _ id

/-- A module keeps what it holds while another one is evicted. -/
theorem Holds.evict {names : Interner} {user : ModuleId} {name : Name}
    (held : names.Holds user name) {m : ModuleId} (others : m = user → m = .host) :
    (names.evict m).2.Holds user name := by
  obtain ⟨entry, stored, same, owner⟩ := held
  refine ⟨entry, ?_, same, owner⟩
  rw [entryAt?_evict, stored, Option.filter_some]
  by_cases host : m.isHost = true
  · simp [host]
  · have kept : entry.owner ≠ some m := by
      intro own
      rcases owner with none | mine
      · simp [none] at own
      · exact host (ModuleId.isHost_iff.mpr (others (Option.some.inj (own.symm.trans mine))))
    simp [kept]

/-- A text is found after a module has been evicted unless it belonged to the module alone. -/
theorem find?_evict {names : Interner} {m : ModuleId} {text : String} {id : NameId} :
    (names.evict m).2.find? text = some id ↔
      names.find? text = some id ∧ ∀ entry, names.entryAt? id = some entry → entry.owner ≠ some m := by
  have kept : ∀ {entry}, names.entryAt? id = some entry →
      ((m.isHost || decide (entry.owner ≠ some m)) = true ↔ entry.owner ≠ some m) := by
    intro entry stored
    rw [Bool.or_eq_true, decide_eq_true_eq, ModuleId.isHost_iff]
    exact ⟨fun h => h.elim (fun host => host ▸ owner_ne_host stored) fun other => other, .inr⟩
  constructor
  · intro found
    obtain ⟨entry, left, rfl⟩ := entryAt?_of_find? found
    rw [entryAt?_evict, Option.filter_eq_some_iff] at left
    refine ⟨find?_of_entryAt? left.1, fun other stored => ?_⟩
    cases Option.some.inj (stored.symm.trans left.1)
    exact (kept stored).mp left.2
  · rintro ⟨found, others⟩
    obtain ⟨entry, stored, rfl⟩ := entryAt?_of_find? found
    refine find?_of_entryAt? ?_
    rw [entryAt?_evict, stored, Option.filter_some, if_pos ((kept stored).mpr (others entry stored))]

/-- A use of the table: a module enters a text, or is evicted. -/
inductive Usage where
  | intern (text : String) (user : ModuleId)
  | evict (m : ModuleId)

def perform (names : Interner) : Usage → Interner
  | .intern text user => (names.intern text user).2
  | .evict m => (names.evict m).2

/-- The table after some uses, one after another. -/
def after (names : Interner) (uses : List Usage) : Interner := uses.foldl perform names

theorem after_append (names : Interner) (first second : List Usage) :
    names.after (first ++ second) = (names.after first).after second :=
  List.foldl_append

theorem Entered.after {user : ModuleId} {a b : Interner} (entered : Entered user a b) :
    ∃ uses, b = a.after uses := by
  induction entered with
  | none => exact ⟨[], rfl⟩
  | intern _ text ih =>
    obtain ⟨uses, rfl⟩ := ih
    exact ⟨uses ++ [.intern text user], by rw [after_append]; rfl⟩

/-- A text that no module but `m` uses. -/
def Reserved (names : Interner) (m : ModuleId) (text : String) : Prop :=
  ∀ id entry, names.entryAt? id = some entry → entry.text = text → entry.owner = some m

theorem Reserved.perform {names : Interner} {m : ModuleId} {text : String}
    (reserved : names.Reserved m text) (named : m ≠ .host) {u : Usage}
    (own : ∀ user, u = .intern text user → user = m) : (names.perform u).Reserved m text := by
  intro id entry found same
  cases u with
  | intern entered user =>
    rcases entryAt?_intern_cases found with kept | ⟨old, stored, here, rfl⟩ | ⟨-, -, rfl⟩
    · exact reserved id entry kept same
    · rw [NameEntry.sharedWith_text, here] at same
      subst same
      cases own user rfl
      have mine := reserved id old stored here
      rw [NameEntry.sharedWith, if_pos mine, mine]
    · cases same
      cases own user rfl
      exact if_neg fun host => named (ModuleId.isHost_iff.mp host)
  | evict k =>
    have left : (names.evict k).2.entryAt? id = some entry := found
    rw [entryAt?_evict] at left
    exact reserved id entry (Option.filter_eq_some_iff.mp left).1 same

/-- What only one module has used since the table last lacked it is reserved to the module. -/
theorem reserved_of_uses {names : Interner} {m : ModuleId} {text : String} (named : m ≠ .host)
    (absent : names.find? text = none) {uses : List Usage}
    (own : ∀ user, .intern text user ∈ uses → user = m) : (names.after uses).Reserved m text := by
  have start : names.Reserved m text :=
    fun id entry found same => absurd same (text_ne_of_find? absent found)
  refine List.foldlRecOn uses perform (motive := fun later => later.Reserved m text) start ?_
  exact fun later reserved u listed => reserved.perform named fun user same => own user (same ▸ listed)

theorem Reserved.find?_evict {names : Interner} {m : ModuleId} {text : String}
    (reserved : names.Reserved m text) : (names.evict m).2.find? text = none := by
  cases found : (names.evict m).2.find? text with
  | none => rfl
  | some id =>
    obtain ⟨before, others⟩ := Interner.find?_evict.mp found
    obtain ⟨entry, stored, same⟩ := entryAt?_of_find? before
    exact absurd (reserved id entry stored same) (others entry stored)

end Interner

end TypeCatalog
