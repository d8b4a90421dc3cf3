import Mathlib.Data.Finset.Card
import Mathlib.Data.List.Nodup
import TypeCatalog.Proofs.Interner

/-!
Who uses a name. A ledger says of each text in the table which id it has and who has entered it
since it came in: a text that comes in gets an id above all earlier ones, and evicting a module
takes out exactly the texts that nobody else has entered. The table of names keeps one owner at
most for a text, and none once the text is shared, and it keeps its names by id and by text; whatever
is done to it, it answers as the ledger does and both ways show the ledger's texts and ids.
-/
namespace TypeCatalog

/-- A text in the ledger: its id, and those who have entered it since it came in. -/
structure Holding where
  id : NameId
  users : Finset ModuleId

/-- The names in use, and every id that has been given out. -/
structure Ledger where
  held : String → Option Holding
  issued : Finset NameId

namespace Ledger

def empty : Ledger := ⟨fun _ => none, ∅⟩

/-- The ledger after a text has been entered under an id. -/
def enter (ledger : Ledger) (text : String) (holding : Holding) : Ledger where
  held := Function.update ledger.held text (some holding)
  issued := insert holding.id ledger.issued

theorem held_enter (ledger : Ledger) (text other : String) (holding : Holding) :
    (ledger.enter text holding).held other =
      if other = text then some holding else ledger.held other :=
  Function.update_apply ledger.held text (some holding) other

/-- The ledger without the texts that only `m` has entered. -/
def without (ledger : Ledger) (m : ModuleId) : Ledger where
  held text := (ledger.held text).filter (·.users ≠ {m})
  issued := ledger.issued

/-- The text is in use, and nobody but `m` has entered it. -/
def OnlyUsedBy (ledger : Ledger) (m : ModuleId) (text : String) : Prop :=
  ∃ id, ledger.held text = some ⟨id, {m}⟩

/-- What a use of the table answers: the name of the text, or how many names are gone. -/
inductive Answer where
  | name (name : Name)
  | count (gone : Nat)

/-- What a use may answer, and what the ledger is then. -/
inductive Step : Ledger → Interner.Usage → Answer → Ledger → Prop where
  | known {ledger text user id users} (present : ledger.held text = some ⟨id, users⟩) :
    Step ledger (.intern text user) (.name ⟨id, text⟩) (ledger.enter text ⟨id, insert user users⟩)
  | fresh {ledger text user id} (absent : ledger.held text = none)
    (above : ∀ old ∈ ledger.issued, old.number < id.number) :
    Step ledger (.intern text user) (.name ⟨id, text⟩) (ledger.enter text ⟨id, {user}⟩)
  | evict {ledger m} (named : m ≠ .host) (gone : Finset String)
    (exactly : ∀ text, text ∈ gone ↔ ledger.OnlyUsedBy m text) :
    Step ledger (.evict m) (.count gone.card) (ledger.without m)
  | evictHost {ledger} : Step ledger (.evict .host) (.count 0) ledger

/-- Some uses, one after another, with their answers. -/
inductive Run : Ledger → List Interner.Usage → List Answer → Ledger → Prop where
  | none {ledger} : Run ledger [] [] ledger
  | cons {a b c use answer uses answers} : Step a use answer b → Run b uses answers c →
    Run a (use :: uses) (answer :: answers) c

/-- An id that has been given out and that no text has any more. -/
def Retired (ledger : Ledger) (id : NameId) : Prop :=
  id ∈ ledger.issued ∧ ∀ text holding, ledger.held text = some holding → holding.id ≠ id

theorem Retired.enter {ledger : Ledger} {id : NameId} (retired : ledger.Retired id)
    (text : String) {holding : Holding} (other : holding.id ≠ id) :
    (ledger.enter text holding).Retired id := by
  refine ⟨Finset.mem_insert_of_mem retired.1, fun other_text found there => ?_⟩
  rw [held_enter] at there
  split at there
  · cases there
    exact other
  · exact retired.2 _ _ there

theorem Retired.step {a b : Ledger} {use : Interner.Usage} {answer : Answer} {id : NameId}
    (retired : a.Retired id) (step : Step a use answer b) : b.Retired id := by
  cases step with
  | known present =>
    have other := retired.2 _ _ present
    exact retired.enter _ other
  | fresh absent above =>
    exact retired.enter _ fun same => absurd (above id retired.1) (same ▸ Nat.lt_irrefl _)
  | evict named gone exactly =>
    refine ⟨retired.1, fun text holding there => ?_⟩
    exact retired.2 text holding (Option.filter_eq_some_iff.mp there).1
  | evictHost => exact retired

/-- An id that no text has any more is never given to one again. -/
theorem Retired.run {a b : Ledger} {uses : List Interner.Usage} {answers : List Answer}
    {id : NameId} (retired : a.Retired id) (run : Run a uses answers b) : b.Retired id := by
  induction run with
  | none => exact retired
  | cons step _ ih => exact ih (retired.step step)

end Ledger

namespace Interner

open Ledger (Answer Step Run held_enter)

def answer (names : Interner) : Usage → Answer
  | .intern text user => .name (names.intern text user).1
  | .evict m => .count (names.evict m).1

/-- The answers to some uses, one after another. -/
def answers (names : Interner) : List Usage → List Answer
  | [] => []
  | use :: uses => names.answer use :: (names.perform use).answers uses

/-- What can be asked of the table is what the ledger says. -/
structure Shows (names : Interner) (ledger : Ledger) : Prop where
  find : ∀ text, names.find? text = (ledger.held text).map (·.id)
  lookup : ∀ text, names.lookup? text = (ledger.held text).map fun holding => ⟨holding.id, text⟩
  name : ∀ id text, names.name? id = some ⟨id, text⟩ ↔
    ∃ users, ledger.held text = some ⟨id, users⟩
  inverse : ∀ text id, names.find? text = some id ↔ names.name? id = some ⟨id, text⟩
  size : ∃ present : Finset String,
    (∀ text, text ∈ present ↔ (ledger.held text).isSome) ∧ names.size = present.card

/-- The one owner that is kept for a text tells whether a module alone has entered it. -/
structure OwnerOf (owner : Option ModuleId) (users : Finset ModuleId) : Prop where
  used : users.Nonempty
  alone : ∀ m, owner = some m ↔ m ≠ .host ∧ users = {m}

theorem OwnerOf.first (user : ModuleId) :
    OwnerOf (if user.isHost then none else some user) {user} := by
  refine ⟨Finset.singleton_nonempty user, fun m => ?_⟩
  rw [Finset.singleton_inj]
  by_cases host : user.isHost = true
  · rw [if_pos host]
    have isHost := ModuleId.isHost_iff.mp host
    exact ⟨nofun, fun ⟨named, same⟩ => absurd (same.symm.trans isHost) named⟩
  · rw [if_neg host, Option.some.injEq]
    have named : user ≠ .host := fun same => host (ModuleId.isHost_iff.mpr same)
    exact ⟨fun same => ⟨same ▸ named, same⟩, And.right⟩

/-- One more user leaves a text that it alone has entered with it, and makes any other shared. -/
theorem OwnerOf.insert {entry : NameEntry} {users : Finset ModuleId}
    (owner : OwnerOf entry.owner users) (user : ModuleId) :
    OwnerOf (entry.sharedWith user).owner (insert user users) := by
  refine ⟨Finset.insert_nonempty user users, fun m => ?_⟩
  unfold NameEntry.sharedWith
  by_cases own : entry.owner = some user
  · have alone := ((owner.alone user).mp own).2
    rw [if_pos own, owner.alone, alone, Finset.insert_eq_of_mem (Finset.mem_singleton_self user)]
  · rw [if_neg own]
    refine ⟨nofun, fun ⟨named, single⟩ => absurd ?_ own⟩
    -- All are the same module, which then had the text alone before.
    have same : user = m := Finset.mem_singleton.mp (single ▸ Finset.mem_insert_self user users)
    have within : users ⊆ {m} := single ▸ Finset.subset_insert user users
    have before : users = {m} := (Finset.subset_singleton_iff.mp within).resolve_left
      owner.used.ne_empty
    exact same ▸ (owner.alone m).mpr ⟨named, before⟩

/-- The table holds what the ledger says, with one owner in place of the users. -/
structure Follows (names : Interner) (ledger : Ledger) : Prop where
  stored : ∀ {text id users}, ledger.held text = some ⟨id, users⟩ →
    ∃ entry, names.entryAt? id = some entry ∧ entry.text = text ∧ OwnerOf entry.owner users
  listed : ∀ {id entry}, names.entryAt? id = some entry →
    ∃ users, ledger.held entry.text = some ⟨id, users⟩
  issued : ∀ id, id ∈ ledger.issued ↔ id.number < names.entries.length
  numbered : ledger.issued.card = names.entries.length

theorem empty_follows : empty.Follows .empty where
  stored := nofun
  listed found := by simp [entryAt?, NameEntry.at?, empty] at found
  issued id := by simp [Ledger.empty, empty]
  numbered := rfl

/-- No two entries of the table have one text. -/
theorem nodup_textsOf (names : Interner) (kind : NameEntry → Bool) :
    (NameEntry.textsOf names.entries kind).Nodup := by
  refine List.Pairwise.filterMap _ ?_ (List.pairwise_iff_getElem.mpr ?_)
    (R := fun a b => ∀ x ∈ a, ∀ y ∈ b, x.text ≠ y.text)
  · intro a b apart first left second right
    obtain ⟨x, from_a, rfl⟩ := Option.map_eq_some_iff.mp left
    obtain ⟨y, from_b, rfl⟩ := Option.map_eq_some_iff.mp right
    have inA := (Option.filter_eq_some_iff.mp from_a).1
    have inB := (Option.filter_eq_some_iff.mp from_b).1
    exact apart x inA y inB
  · intro i j iWithin jWithin before x atI y atJ same
    have first : names.entryAt? ⟨i⟩ = some x :=
      NameEntry.at?_eq_some_iff.mpr ((List.getElem?_eq_getElem iWithin).trans (congrArg some atI))
    have second : names.entryAt? ⟨j⟩ = some y :=
      NameEntry.at?_eq_some_iff.mpr ((List.getElem?_eq_getElem jWithin).trans (congrArg some atJ))
    exact absurd (congrArg NameId.number (id_eq_of_text first second same)) (Nat.ne_of_lt before)

/-- The names of a kind have that many texts. -/
theorem card_texts (names : Interner) (kind : NameEntry → Bool) :
    ∃ texts : Finset String,
      (∀ text, text ∈ texts ↔
        ∃ id entry, names.entryAt? id = some entry ∧ entry.text = text ∧ kind entry) ∧
      (NameEntry.textsOf names.entries kind).length = texts.card := by
  refine ⟨(NameEntry.textsOf names.entries kind).toFinset, fun text => ?_, ?_⟩
  · rw [List.mem_toFinset, NameEntry.mem_textsOf]
    rfl
  · rw [List.toFinset_card_of_nodup (nodup_textsOf names kind)]

/-- The texts that lead to ids are as many as the table says. -/
theorem card_present (names : Interner) :
    ∃ present : Finset String,
      (∀ text, text ∈ present ↔ (names.find? text).isSome) ∧ names.size = present.card := by
  refine ⟨names.byText.keys.toFinset, fun text => ?_, ?_⟩
  · rw [List.mem_toFinset, Index.mem_keys_iff]
    rfl
  · rw [List.toFinset_card_of_nodup names.agree.once, Index.keys, List.length_map]
    rfl

theorem name?_iff {names : Interner} {id : NameId} {text : String} :
    names.name? id = some ⟨id, text⟩ ↔
      ∃ entry, names.entryAt? id = some entry ∧ entry.text = text := by
  simp [name?, entryAt?]

namespace Follows

variable {names : Interner} {ledger : Ledger} {text : String} {user m : ModuleId} {id : NameId}

theorem find?_eq (follows : names.Follows ledger) (text : String) :
    names.find? text = (ledger.held text).map (·.id) := by
  cases held : ledger.held text with
  | some holding =>
    obtain ⟨entry, found, rfl, -⟩ := follows.stored held
    exact find?_of_entryAt? found
  | none =>
    cases known : names.find? text with
    | none => rfl
    | some id =>
      obtain ⟨entry, found, rfl⟩ := entryAt?_of_find? known
      obtain ⟨users, there⟩ := follows.listed found
      cases held.symm.trans there

theorem name?_iff_held (follows : names.Follows ledger) :
    names.name? id = some ⟨id, text⟩ ↔ ∃ users, ledger.held text = some ⟨id, users⟩ := by
  rw [name?_iff]
  constructor
  · rintro ⟨entry, found, rfl⟩
    exact follows.listed found
  · rintro ⟨users, held⟩
    obtain ⟨entry, found, same, -⟩ := follows.stored held
    exact ⟨entry, found, same⟩

theorem shows (follows : names.Follows ledger) : names.Shows ledger where
  find := follows.find?_eq
  lookup text := by
    rw [lookup?, follows.find?_eq]
    cases held : ledger.held text with
    | none => rfl
    | some holding => exact follows.name?_iff_held.mpr ⟨holding.users, held⟩
  name id text := follows.name?_iff_held
  inverse text id := by
    rw [follows.name?_iff_held, follows.find?_eq, Option.map_eq_some_iff]
    exact ⟨fun ⟨⟨_, users⟩, held, same⟩ => ⟨users, same ▸ held⟩,
      fun ⟨users, held⟩ => ⟨_, held, rfl⟩⟩
  size := by
    obtain ⟨present, members, count⟩ := card_present names
    refine ⟨present, fun text => ?_, count⟩
    rw [members, follows.find?_eq, Option.isSome_map]

theorem known (follows : names.Follows ledger) {users : Finset ModuleId}
    (held : ledger.held text = some ⟨id, users⟩) (user : ModuleId) :
    (names.intern text user).2.Follows (ledger.enter text ⟨id, insert user users⟩) := by
  obtain ⟨entry, found, rfl, owner⟩ := follows.stored held
  have here := find?_of_entryAt? found
  have present : id ∈ ledger.issued := (follows.issued id).mpr (NameEntry.lt_of_at? found)
  have unchanged : (ledger.enter entry.text ⟨id, insert user users⟩).issued = ledger.issued :=
    Finset.insert_eq_of_mem present
  refine ⟨?_, ?_, ?_, ?_⟩
  · intro other at_id some_users there
    rw [intern_of_found here, entryAt?_share]
    rw [held_enter] at there
    split at there
    · rename_i same
      cases there
      refine ⟨entry.sharedWith user, by rw [if_pos rfl, found, Option.map_some], ?_,
        owner.insert user⟩
      exact (entry.sharedWith_text user).trans same.symm
    · rename_i distinct
      obtain ⟨stored, atOther, same, kept⟩ := follows.stored there
      have apart : at_id ≠ id := by
        rintro rfl
        cases Option.some.inj (found.symm.trans atOther)
        exact distinct same.symm
      exact ⟨stored, by rw [if_neg apart]; exact atOther, same, kept⟩
  · intro at_id stored there
    rw [intern_of_found here, entryAt?_share] at there
    rw [held_enter]
    split at there
    · rename_i same
      rw [found] at there
      cases Option.some.inj there
      rw [if_pos (entry.sharedWith_text user), same]
      exact ⟨_, rfl⟩
    · rename_i apart
      have distinct : stored.text ≠ entry.text := fun same =>
        apart (id_eq_of_text there found same)
      rw [if_neg distinct]
      exact follows.listed there
  · intro other
    rw [unchanged, follows.issued, intern_of_found here, share, List.length_modify]
  · rw [unchanged, follows.numbered, intern_of_found here, share, List.length_modify]

theorem fresh (follows : names.Follows ledger) (absent : ledger.held text = none)
    (user : ModuleId) :
    (names.intern text user).2.Follows (ledger.enter text ⟨⟨names.entries.length⟩, {user}⟩) := by
  have unknown : names.find? text = none := by rw [follows.find?_eq, absent, Option.map_none]
  refine ⟨?_, ?_, ?_, ?_⟩
  · intro other at_id users there
    rw [intern_of_absent unknown, entryAt?_add]
    rw [held_enter] at there
    split at there
    · rename_i same
      cases there
      exact ⟨_, if_pos rfl, same.symm, .first user⟩
    · obtain ⟨stored, atOther, same, owner⟩ := follows.stored there
      refine ⟨stored, ?_, same, owner⟩
      rw [if_neg (Nat.ne_of_lt (NameEntry.lt_of_at? atOther))]
      exact atOther
  · intro at_id stored there
    rw [intern_of_absent unknown, entryAt?_add] at there
    rw [held_enter]
    split at there
    · rename_i last
      cases Option.some.inj there
      obtain rfl : at_id = ⟨names.entries.length⟩ := congrArg NameId.mk last
      exact ⟨{user}, if_pos rfl⟩
    · obtain ⟨users, held⟩ := follows.listed there
      have distinct : stored.text ≠ text := by
        rintro rfl
        cases absent.symm.trans held
      exact ⟨users, by rw [if_neg distinct]; exact held⟩
  · intro other
    obtain ⟨number⟩ := other
    rw [intern_of_absent unknown, add, List.length_append, List.length_singleton,
      Nat.lt_succ_iff_lt_or_eq, Ledger.enter, Finset.mem_insert, follows.issued, NameId.mk.injEq, or_comm]
  · have unissued : (⟨names.entries.length⟩ : NameId) ∉ ledger.issued := fun present =>
      Nat.lt_irrefl _ ((follows.issued _).mp present)
    rw [intern_of_absent unknown, add, List.length_append, List.length_singleton, Ledger.enter,
      Finset.card_insert_of_notMem unissued, follows.numbered]

theorem evict (follows : names.Follows ledger) (named : m ≠ .host) :
    (names.evict m).2.Follows (ledger.without m) := by
  have other : m.isHost = false := by
    rw [← Bool.not_eq_true, ModuleId.isHost_iff]
    exact named
  have size : (names.evict m).2.entries.length = names.entries.length := by
    simp [Interner.evict, without, other]
  refine ⟨?_, ?_, ?_, ?_⟩
  · intro text id users there
    obtain ⟨held, others⟩ := Option.filter_eq_some_iff.mp there
    obtain ⟨entry, found, same, owner⟩ := follows.stored held
    have kept : entry.owner ≠ some m := fun own =>
      of_decide_eq_true others ((owner.alone m).mp own).2
    refine ⟨entry, ?_, same, owner⟩
    rw [entryAt?_evict, found, Option.filter_some, if_pos (by simp [kept])]
  · intro id entry there
    rw [entryAt?_evict, Option.filter_eq_some_iff, other] at there
    obtain ⟨users, held⟩ := follows.listed there.1
    obtain ⟨stored, found, -, owner⟩ := follows.stored held
    cases Option.some.inj (found.symm.trans there.1)
    have others : users ≠ {m} := fun alone => by
      simpa [(owner.alone m).mpr ⟨named, alone⟩] using there.2
    exact ⟨users, Option.filter_eq_some_iff.mpr ⟨held, decide_eq_true others⟩⟩
  · intro id
    rw [size]
    exact follows.issued id
  · rw [size]
    exact follows.numbered

/-- One use: the table answers as the ledger may, and still follows it. -/
theorem step (follows : names.Follows ledger) (use : Usage) :
    ∃ later, Step ledger use (names.answer use) later ∧ (names.perform use).Follows later := by
  cases use with
  | intern text user =>
    cases held : ledger.held text with
    | some holding =>
      have here : names.find? text = some holding.id := by
        rw [follows.find?_eq, held, Option.map_some]
      have answered : names.answer (.intern text user) = .name ⟨holding.id, text⟩ := by
        rw [answer, intern_of_found here]
      exact ⟨_, answered ▸ .known held, follows.known held user⟩
    | none =>
      have unknown : names.find? text = none := by rw [follows.find?_eq, held, Option.map_none]
      have answered : names.answer (.intern text user) = .name ⟨⟨names.entries.length⟩, text⟩ := by
        rw [answer, intern_of_absent unknown]
      exact ⟨_, answered ▸ .fresh held fun old => (follows.issued old).mp, follows.fresh held user⟩
  | evict m =>
    by_cases host : m = .host
    · subst host
      exact ⟨ledger, .evictHost, follows⟩
    · obtain ⟨gone, members, count⟩ := card_texts names fun entry => entry.owner = some m
      have answered : names.answer (.evict m) = .count gone.card := by
        rw [answer, ← count, Interner.evict, if_neg (mt ModuleId.isHost_iff.mp host)]
      refine ⟨_, answered ▸ .evict host gone fun text => (members text).trans ?_,
        follows.evict host⟩
      constructor
      · rintro ⟨id, entry, found, rfl, own⟩
        obtain ⟨users, held⟩ := follows.listed found
        obtain ⟨stored, there, -, owner⟩ := follows.stored held
        cases Option.some.inj (there.symm.trans found)
        exact ⟨id, ((owner.alone m).mp (of_decide_eq_true own)).2 ▸ held⟩
      · rintro ⟨id, held⟩
        obtain ⟨entry, found, same, owner⟩ := follows.stored held
        exact ⟨id, entry, found, same, decide_eq_true ((owner.alone m).mpr ⟨host, rfl⟩)⟩

/-- Any uses, one after another. -/
theorem run (follows : names.Follows ledger) (uses : List Usage) :
    ∃ later, Run ledger uses (names.answers uses) later ∧ (names.after uses).Follows later := by
  induction uses generalizing names ledger with
  | nil => exact ⟨ledger, .none, follows⟩
  | cons use uses ih =>
    obtain ⟨next, step, followed⟩ := follows.step use
    obtain ⟨later, rest, last⟩ := ih followed
    exact ⟨later, .cons step rest, last⟩

theorem retired (follows : names.Follows ledger) (given : id ∈ ledger.issued)
    (gone : names.name? id = none) : ledger.Retired id := by
  refine ⟨given, fun text holding held same => ?_⟩
  subst same
  cases gone.symm.trans (follows.name?_iff_held.mpr ⟨holding.users, held⟩)

theorem name?_of_retired (follows : names.Follows ledger) (retired : ledger.Retired id) :
    names.name? id = none := by
  cases found : names.name? id with
  | none => rfl
  | some name =>
    obtain ⟨entry, stored, rfl⟩ := Option.map_eq_some_iff.mp found
    obtain ⟨users, held⟩ := follows.listed stored
    exact absurd rfl (retired.2 _ _ held)

end Follows

/-- Whatever is done to an empty table, it answers as a ledger of ids and users does and shows what
the ledger says. The ids it has given out are numbered below their count, so they fit in as many
bits as the count does; an id that has lost its text never leads to one again. -/
theorem answers_as_ledger (uses : List Usage) :
    ∃ ledger, Run .empty uses (empty.answers uses) ledger ∧ (empty.after uses).Shows ledger ∧
      (∀ id ∈ ledger.issued, id.number < ledger.issued.card) ∧
      ∀ id ∈ ledger.issued, (empty.after uses).name? id = none →
        ∀ later, (empty.after (uses ++ later)).name? id = none := by
  obtain ⟨ledger, run, follows⟩ := empty_follows.run uses
  refine ⟨ledger, run, follows.shows, fun id given => ?_, fun id given gone later => ?_⟩
  · rw [follows.numbered]
    exact (follows.issued id).mp given
  · obtain ⟨last, rest, followed⟩ := follows.run later
    rw [after_append]
    exact followed.name?_of_retired ((follows.retired given gone).run rest)

end Interner

end TypeCatalog
