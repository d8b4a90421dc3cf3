import TypeCatalog.Index
import TypeCatalog.ModuleId
import TypeCatalog.Text.Quoted

/-!
The table of names. Equal texts have one id, and no id is given twice. A name belongs to the
module that brought it in until another module or the host uses it too; a name that still
belongs to one module goes with that module. What is kept by id is kept by text as well, and every
change is made to both.
-/
namespace TypeCatalog

structure NameId where
  number : Nat
deriving DecidableEq, Inhabited

def NameId.debugText (id : NameId) : String := s!"NameId({id.number})"

structure Name where
  id : NameId
  text : String
deriving DecidableEq, Inhabited

def Name.debugText (name : Name) : String := Text.quote name.text ++ s!"#{name.id.number}"

/-- A name in the table; a shared name has no owner. -/
structure NameEntry where
  text : String
  owner : Option ModuleId
deriving DecidableEq

namespace NameEntry

/-- The entry of a text that `user` brings in. -/
def of (text : String) (user : ModuleId) : NameEntry :=
  ⟨text, if user.isHost then none else some user⟩

theorem of_owner_ne_host (text : String) (user : ModuleId) : (of text user).owner ≠ some .host := by
  unfold of
  split
  · nofun
  · rename_i named
    exact fun same => named (ModuleId.isHost_iff.mpr (Option.some.inj same))

/-- The owner of a name once `user` uses it too. -/
def sharedWith (entry : NameEntry) (user : ModuleId) : NameEntry :=
  if entry.owner = some user then entry else { entry with owner := none }

theorem sharedWith_text (entry : NameEntry) (user : ModuleId) :
    (entry.sharedWith user).text = entry.text := by
  unfold sharedWith
  split <;> rfl

theorem sharedWith_owner (entry : NameEntry) (user : ModuleId) :
    (entry.sharedWith user).owner = none ∨
      (entry.sharedWith user).owner = entry.owner ∧ entry.owner = some user := by
  unfold sharedWith
  split
  · rename_i own
    exact .inr ⟨rfl, own⟩
  · exact .inl rfl

variable {entries : List (Option NameEntry)} {id : NameId} {entry : NameEntry}

/-- The entry of an id that has not been evicted: it is at its number. -/
def at? (entries : List (Option NameEntry)) (id : NameId) : Option NameEntry :=
  entries[id.number]?.join

theorem at?_eq_some_iff : at? entries id = some entry ↔ entries[id.number]? = some (some entry) :=
  Option.join_eq_some_iff

theorem at?_modify (entries : List (Option NameEntry)) (id other : NameId)
    (change : NameEntry → NameEntry) :
    at? (entries.modify id.number (·.map change)) other =
      if other = id then (at? entries id).map change else at? entries other := by
  unfold at?
  rw [List.getElem?_modify]
  by_cases same : other = id
  · subst same
    cases entries[other.number]? <;> simp
  · have numbers : id.number ≠ other.number := fun h => same (by cases id; cases other; simp_all)
    cases entries[other.number]? <;> simp [same, numbers]

theorem at?_push (entries : List (Option NameEntry)) (last : NameEntry) (id : NameId) :
    at? (entries ++ [some last]) id =
      if id.number = entries.length then some last else at? entries id := by
  unfold at?
  rw [List.getElem?_append]
  by_cases less : id.number < entries.length
  · simp [less, Nat.ne_of_lt less]
  · by_cases same : id.number = entries.length
    · simp [same]
    · have after : id.number - entries.length ≠ 0 := by omega
      simp [less, same, after]

theorem at?_filter (entries : List (Option NameEntry)) (keep : NameEntry → Bool) (id : NameId) :
    at? (entries.map (Option.filter keep)) id = (at? entries id).filter keep := by
  unfold at?
  rw [List.getElem?_map]
  cases entries[id.number]? <;> rfl

theorem lt_of_at? (found : at? entries id = some entry) : id.number < entries.length :=
  (List.getElem?_eq_some_iff.mp (at?_eq_some_iff.mp found)).1

/-- The texts of the entries of a kind, in the order of their ids. -/
def textsOf (entries : List (Option NameEntry)) (kind : NameEntry → Bool) : List String :=
  entries.filterMap fun slot => (slot.filter kind).map (·.text)

theorem mem_textsOf {kind : NameEntry → Bool} {text : String} :
    text ∈ textsOf entries kind ↔
      ∃ id entry, at? entries id = some entry ∧ entry.text = text ∧ kind entry := by
  simp only [textsOf, List.mem_filterMap, Option.map_eq_some_iff, Option.filter_eq_some_iff,
    at?_eq_some_iff]
  constructor
  · rintro ⟨_, listed, entry, ⟨rfl, holds⟩, same⟩
    obtain ⟨number, here⟩ := List.mem_iff_getElem?.mp listed
    exact ⟨⟨number⟩, entry, here, same, holds⟩
  · rintro ⟨id, entry, here, same, holds⟩
    exact ⟨_, List.mem_of_getElem? here, entry, ⟨rfl, holds⟩, same⟩

/-- The entries of ids and the ids of texts tell the same of the names, and none is the host's. -/
structure Agree (entries : List (Option NameEntry)) (byText : Index String NameId) : Prop where
  found : ∀ text id, byText.find? text = some id ↔
    ∃ entry, at? entries id = some entry ∧ entry.text = text
  once : byText.keys.Nodup
  unowned : ∀ id entry, at? entries id = some entry → entry.owner ≠ some .host

namespace Agree

variable {byText : Index String NameId}

theorem empty : Agree [] .empty :=
  ⟨by simp [at?], List.nodup_nil, by simp [at?]⟩

theorem share (agree : Agree entries byText) (id : NameId) (user : ModuleId) :
    Agree (entries.modify id.number (·.map (·.sharedWith user))) byText where
  found text other := by
    rw [agree.found, at?_modify]
    by_cases same : other = id
    · subst same
      cases at? entries other <;> simp [sharedWith_text]
    · simp [same]
  once := agree.once
  unowned other entry there := by
    rw [at?_modify] at there
    split at there
    · obtain ⟨old, before, rfl⟩ := Option.map_eq_some_iff.mp there
      rcases sharedWith_owner old user with shared | ⟨kept, -⟩
      · simp [shared]
      · exact kept ▸ agree.unowned id old before
    · exact agree.unowned other entry there

theorem add (agree : Agree entries byText) {text : String} (absent : byText.find? text = none)
    (user : ModuleId) :
    Agree (entries ++ [some (of text user)]) (byText.insert text ⟨entries.length⟩) where
  found other id := by
    obtain ⟨number⟩ := id
    have old := agree.found other ⟨number⟩
    rw [Index.find?_insert, at?_push]
    by_cases last : number = entries.length
    · subst last
      have nowhere : byText.find? other ≠ some ⟨entries.length⟩ := fun known => by
        obtain ⟨_, there, -⟩ := old.mp known
        exact Nat.lt_irrefl _ (lt_of_at? there)
      by_cases same : other = text
      · simp [same, of]
      · simp [same, nowhere, of, Ne.symm same]
    · by_cases same : other = text
      · subst same
        have nowhere : ¬ ∃ entry, at? entries ⟨number⟩ = some entry ∧ entry.text = other :=
          fun there => by simp [old.mpr there] at absent
        simpa [last, Ne.symm last] using nowhere
      · simpa [last, same] using old
  once := Index.nodup_keys_insert agree.once text _
  unowned id entry there := by
    rw [at?_push] at there
    split at there
    · cases there
      exact of_owner_ne_host text user
    · exact agree.unowned id entry there

theorem without (agree : Agree entries byText) (gone : NameEntry → Bool) :
    Agree (entries.map (Option.filter (!gone ·)))
      ((textsOf entries gone).foldl Index.erase byText) where
  found text id := by
    simp only [Index.find?_foldl_erase, at?_filter]
    constructor
    · intro known
      split at known
      · cases known
      · rename_i kept
        obtain ⟨entry, there, same⟩ := (agree.found text id).mp known
        have stays : gone entry = false := by
          rw [← Bool.not_eq_true]
          exact fun goes => kept (mem_textsOf.mpr ⟨id, entry, there, same, goes⟩)
        exact ⟨entry, Option.filter_eq_some_iff.mpr ⟨there, by simp [stays]⟩, same⟩
    · rintro ⟨entry, left, same⟩
      obtain ⟨there, stays⟩ := Option.filter_eq_some_iff.mp left
      have known := (agree.found text id).mpr ⟨entry, there, same⟩
      rw [if_neg, known]
      intro listed
      obtain ⟨id', other, there', same', goes⟩ := mem_textsOf.mp listed
      -- The text leads to one id, so the entry that goes is the one that stays.
      have known' := (agree.found text id').mpr ⟨other, there', same'⟩
      cases Option.some.inj (known.symm.trans known')
      cases Option.some.inj (there.symm.trans there')
      simp [goes] at stays
  once := Index.nodup_keys_foldl_erase agree.once _
  unowned id entry there := by
    rw [at?_filter] at there
    exact agree.unowned id entry (Option.filter_eq_some_iff.mp there).1

end Agree

end NameEntry

/-- The table of names, by id and by text. -/
@[ext]
structure Interner where
  entries : List (Option NameEntry)
  byText : Index String NameId
  agree : NameEntry.Agree entries byText

namespace Interner

def empty : Interner := ⟨[], .empty, .empty⟩

instance : Inhabited Interner := ⟨empty⟩

def entryAt? (names : Interner) (id : NameId) : Option NameEntry := NameEntry.at? names.entries id

def find? (names : Interner) (text : String) : Option NameId := names.byText.find? text

def name? (names : Interner) (id : NameId) : Option Name :=
  (names.entryAt? id).map fun entry => ⟨id, entry.text⟩

def lookup? (names : Interner) (text : String) : Option Name :=
  (names.find? text).bind names.name?

/-- The id that a text leads to, and the entry that the id leads to. -/
def present? (names : Interner) (text : String) : Option (NameId × NameEntry) :=
  (names.find? text).bind fun id => (names.entryAt? id).map fun entry => (id, entry)

theorem present?_eq_some_iff {names : Interner} {text : String} {id : NameId} {entry : NameEntry} :
    names.present? text = some (id, entry) ↔ names.entryAt? id = some entry ∧ entry.text = text := by
  simp only [present?, Option.bind_eq_some_iff, Option.map_eq_some_iff, Prod.mk.injEq]
  constructor
  · rintro ⟨_, known, _, there, rfl, rfl⟩
    obtain ⟨entry', there', same⟩ := (names.agree.found _ _).mp known
    cases Option.some.inj (there.symm.trans there')
    exact ⟨there, same⟩
  · rintro ⟨there, same⟩
    exact ⟨id, (names.agree.found _ _).mpr ⟨entry, there, same⟩, entry, there, rfl, rfl⟩

theorem present?_eq_none_iff {names : Interner} {text : String} :
    names.present? text = none ↔ names.find? text = none := by
  cases known : names.find? text with
  | none => simp [present?, known]
  | some id =>
    obtain ⟨entry, there, same⟩ := (names.agree.found _ _).mp known
    simp [present?_eq_some_iff.mpr ⟨there, same⟩]

/-- The table once `user` uses the name of an id too. -/
def share (names : Interner) (id : NameId) (user : ModuleId) : Interner where
  entries := names.entries.modify id.number (·.map (·.sharedWith user))
  byText := names.byText
  agree := names.agree.share id user

/-- The table with one more name, which `user` brings in. -/
def add (names : Interner) (text : String) (user : ModuleId) (absent : names.find? text = none) :
    Interner where
  entries := names.entries ++ [some (.of text user)]
  byText := names.byText.insert text ⟨names.entries.length⟩
  agree := names.agree.add absent user

def intern (names : Interner) (text : String) (user : ModuleId) : Name × Interner :=
  match known : names.present? text with
  | some (id, entry) => (⟨id, entry.text⟩, names.share id user)
  | none => (⟨⟨names.entries.length⟩, text⟩, names.add text user (present?_eq_none_iff.mp known))

/-- The table without the names of a kind, which are taken out by their texts too. -/
def without (names : Interner) (gone : NameEntry → Bool) : Interner where
  entries := names.entries.map (Option.filter (!gone ·))
  byText := (NameEntry.textsOf names.entries gone).foldl Index.erase names.byText
  agree := names.agree.without gone

/-- Removes the names that belong to a module alone and counts them. The host keeps its names. -/
def evict (names : Interner) (m : ModuleId) : Nat × Interner :=
  let own (entry : NameEntry) : Bool := entry.owner = some m
  if m.isHost then (0, names)
  else ((NameEntry.textsOf names.entries own).length, names.without own)

def size (names : Interner) : Nat := names.byText.size

end Interner

end TypeCatalog
