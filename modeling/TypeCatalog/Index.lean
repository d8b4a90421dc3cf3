/-! Finite maps as lists of entries, as the look-up tables of the catalog keep them. -/
namespace TypeCatalog

/-- A finite map. The first entry of a key counts. -/
structure Index (κ ν : Type) where
  entries : List (κ × ν)

namespace Index

variable {κ ν : Type} [DecidableEq κ]

def empty : Index κ ν := ⟨[]⟩

instance : Inhabited (Index κ ν) := ⟨empty⟩

def find? (m : Index κ ν) (key : κ) : Option ν := (m.entries.find? (·.1 = key)).map (·.2)

def erase (m : Index κ ν) (key : κ) : Index κ ν := ⟨m.entries.filter (·.1 ≠ key)⟩

def insert (m : Index κ ν) (key : κ) (value : ν) : Index κ ν :=
  ⟨(key, value) :: (m.erase key).entries⟩

/-- Changes the value of a key, which is `fresh` before its first change. -/
def update (m : Index κ ν) (key : κ) (fresh : ν) (change : ν → ν) : Index κ ν :=
  m.insert key (change ((m.find? key).getD fresh))

/-- Changes the value of a key that is present. -/
def modify (m : Index κ ν) (key : κ) (change : ν → ν) : Index κ ν :=
  match m.find? key with
  | some value => m.insert key (change value)
  | none => m

def keys (m : Index κ ν) : List κ := m.entries.map (·.1)

def values (m : Index κ ν) : List ν := m.entries.map (·.2)

def size (m : Index κ ν) : Nat := m.entries.length

@[simp] theorem find?_empty (key : κ) : (empty : Index κ ν).find? key = none := rfl

theorem find?_erase (m : Index κ ν) (key other : κ) :
    (m.erase key).find? other = if other = key then none else m.find? other := by
  obtain ⟨entries⟩ := m
  simp only [find?, erase]
  induction entries with
  | nil => simp
  | cons entry entries ih =>
    by_cases dropped : entry.1 = key
    · by_cases h : other = key
      · simp [h]
      · have skip : key ≠ other := Ne.symm h
        simpa [dropped, h, skip] using ih
    · by_cases found : entry.1 = other
      · have h : other ≠ key := fun e => dropped (found.trans e)
        simp [found, h]
      · simpa [dropped, found] using ih

theorem find?_insert (m : Index κ ν) (key other : κ) (value : ν) :
    (m.insert key value).find? other = if other = key then some value else m.find? other := by
  by_cases h : other = key
  · simp [find?, insert, h]
  · have skip : (m.insert key value).find? other = (m.erase key).find? other := by
      simp [find?, insert, Ne.symm h]
    rw [skip, find?_erase, if_neg h, if_neg h]

@[simp] theorem find?_insert_self (m : Index κ ν) (key : κ) (value : ν) :
    (m.insert key value).find? key = some value := by
  simp [find?_insert]

@[simp] theorem find?_erase_self (m : Index κ ν) (key : κ) : (m.erase key).find? key = none := by
  simp [find?_erase]

theorem find?_foldl_erase (m : Index κ ν) (gone : List κ) (key : κ) :
    (gone.foldl erase m).find? key = if key ∈ gone then none else m.find? key := by
  induction gone generalizing m with
  | nil => simp
  | cons first rest ih =>
    rw [List.foldl_cons, ih, find?_erase]
    by_cases here : key = first <;> simp [here]

theorem mem_keys_iff {m : Index κ ν} {key : κ} : key ∈ m.keys ↔ (m.find? key).isSome := by
  simp [keys, find?]

theorem nodup_keys_erase {m : Index κ ν} (once : m.keys.Nodup) (key : κ) :
    (m.erase key).keys.Nodup :=
  once.sublist (List.filter_sublist.map _)

theorem nodup_keys_foldl_erase {m : Index κ ν} (once : m.keys.Nodup) (gone : List κ) :
    (gone.foldl erase m).keys.Nodup :=
  List.foldlRecOn gone erase (motive := fun left : Index κ ν => left.keys.Nodup) once
    fun _ before key _ => nodup_keys_erase before key

theorem nodup_keys_insert {m : Index κ ν} (once : m.keys.Nodup) (key : κ) (value : ν) :
    (m.insert key value).keys.Nodup :=
  List.nodup_cons.mpr
    ⟨fun listed => by simpa using mem_keys_iff.mp listed, nodup_keys_erase once key⟩

end Index

end TypeCatalog
