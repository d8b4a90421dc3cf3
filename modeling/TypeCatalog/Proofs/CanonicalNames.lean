import Mathlib.Data.List.DropRight
import TypeCatalog.Gallery.Shape
import TypeCatalog.Registry.Types

/-!
Names in canonical form. A canonical name has no blank around it, so making it canonical again can
only take off another aggregate keyword; and it does so exactly where the first name had two of them
in front. A type whose name has at most one is the same type under its canonical name: it has the
same hash, and its row is entered under the same name.
-/
namespace TypeCatalog

namespace Text

variable {text part : List Char}

theorem trimStart_trimStart (text : List Char) : trimStart (trimStart text) = trimStart text :=
  List.dropWhile_idempotent isBlank text

/-- Trimming the end leaves the beginning as it is. -/
theorem trimStart_trim (text : List Char) : trimStart (trim text) = trim text := by
  refine List.dropWhile_eq_self_iff.mpr fun nonempty => ?_
  have lead : trim text <+: trimStart text := List.rdropWhile_prefix isBlank _
  have inside : 0 < (trimStart text).length := nonempty.trans_le lead.length_le
  rw [lead.getElem nonempty]
  exact List.dropWhile_eq_self_iff.mp (trimStart_trimStart text) inside

theorem trimEnd_trim (text : List Char) : trimEnd (trim text) = trim text :=
  List.rdropWhile_idempotent isBlank _

/-- The end of a text without blanks at its end has none there either. -/
theorem trimEnd_of_suffix (last : part <:+ text) (trimmed : trimEnd text = text) :
    trimEnd part = part := by
  refine List.rdropWhile_eq_self_iff.mpr fun nonempty => ?_
  rw [last.getLast nonempty]
  exact List.rdropWhile_eq_self_iff.mp trimmed _

/-- Blanks before a text that begins with none are what trimming takes off. -/
theorem trimStart_append (blanks : ∀ c ∈ part, isBlank c) (trimmed : trimStart text = text) :
    trimStart (part ++ text) = text :=
  (List.dropWhile_append_of_pos blanks).trans trimmed

end Text

open Text

variable {raw name keyword : String}

/-- Whether a text begins with an aggregate keyword. -/
def Marked (text : List Char) : Prop := ∃ keyword ∈ aggregateKeywords, keyword.toList <+: text

/-- Whether a name begins with two aggregate keywords, with nothing but blanks between them and
before them. -/
def TwiceMarked (raw : String) : Prop :=
  ∃ first ∈ aggregateKeywords, ∃ second ∈ aggregateKeywords, ∃ blanks : List Char,
    (∀ c ∈ blanks, isBlank c) ∧ first.toList ++ blanks ++ second.toList <+: trim raw.toList

/-- Aggregate keywords are told by their first letters, so a text begins with one of them at most. -/
theorem aggregateKeyword_unique {other : String} {text : List Char}
    (first : keyword ∈ aggregateKeywords) (second : other ∈ aggregateKeywords)
    (leads : keyword.toList <+: text) (also : other.toList <+: text) : keyword = other := by
  have apart : ∀ k ∈ aggregateKeywords, ∀ l ∈ aggregateKeywords,
      k.toList <+: l.toList → k = l := by
    decide
  rcases List.prefix_or_prefix_of_prefix leads also with within | within
  · exact apart keyword first other second within
  · exact (apart other second keyword first within).symm

theorem trimStart_keyword_append (known : keyword ∈ aggregateKeywords) (text : List Char) :
    trimStart (keyword.toList ++ text) = keyword.toList ++ text := by
  have letters : ∀ k ∈ aggregateKeywords, k.toList.head?.any (!isBlank ·) := by decide
  have letter := letters keyword known
  cases written : keyword.toList with
  | nil => simp [written] at letter
  | cons c rest =>
    have plain : isBlank c = false := by simpa [written] using letter
    exact List.dropWhile_cons_of_neg (by simp [plain])

/-- The keyword in front of a name is taken off, with the blanks behind it. -/
theorem canonicalName_marked {text : List Char} (known : keyword ∈ aggregateKeywords)
    (leads : trim raw.toList = keyword.toList ++ text) :
    (canonicalName raw).toList = trimStart text := by
  cases found : aggregateKeywords.findSome? fun other =>
      (stripLeading? other.toList (trim raw.toList)).map trimStart with
  | none =>
    have unmatched := List.findSome?_eq_none_iff.mp found keyword known
    rw [stripLeading?_eq_some_iff.mpr leads] at unmatched
    cases unmatched
  | some bare =>
    obtain ⟨other, listed, matched⟩ := List.exists_of_findSome?_eq_some found
    obtain ⟨rest, split, rfl⟩ := Option.map_eq_some_iff.mp matched
    have also := stripLeading?_eq_some_iff.mp split
    obtain rfl := aggregateKeyword_unique known listed ⟨text, leads.symm⟩ ⟨rest, also.symm⟩
    obtain rfl := List.append_cancel_left (leads.symm.trans also)
    rw [canonicalName, found, String.toList_ofList, Option.getD_some]

theorem canonicalName_unmarked (bare : ¬ Marked (trim raw.toList)) :
    (canonicalName raw).toList = trim raw.toList := by
  have found : aggregateKeywords.findSome? (fun keyword =>
      (stripLeading? keyword.toList (trim raw.toList)).map trimStart) = none := by
    refine List.findSome?_eq_none_iff.mpr fun keyword known => Option.map_eq_none_iff.mpr ?_
    refine Option.eq_none_iff_forall_ne_some.mpr fun rest matched => bare ⟨keyword, known, rest, ?_⟩
    exact (stripLeading?_eq_some_iff.mp matched).symm
  rw [canonicalName, found, String.toList_ofList, Option.getD_none]

/-- A canonical name has no blank around it. -/
theorem trim_canonicalName (raw : String) :
    trim (canonicalName raw).toList = (canonicalName raw).toList := by
  by_cases marked : Marked (trim raw.toList)
  · obtain ⟨keyword, known, text, leads⟩ := marked
    have last : trimStart text <:+ trim raw.toList :=
      leads ▸ (List.dropWhile_suffix isBlank).trans (List.suffix_append _ _)
    rw [canonicalName_marked known leads.symm, trim, trimStart_trimStart]
    exact trimEnd_of_suffix last (trimEnd_trim raw.toList)
  · rw [canonicalName_unmarked marked, trim, trimStart_trim, trimEnd_trim]

/-- A name without blanks around it is canonical unless a keyword stands in front of it. -/
theorem canonicalName_eq_self_iff (trimmed : trim name.toList = name.toList) :
    canonicalName name = name ↔ ¬ Marked name.toList := by
  constructor
  · rintro same ⟨keyword, known, text, leads⟩
    have shorter := canonicalName_marked known (trimmed.trans leads.symm)
    have shown : ∀ k ∈ aggregateKeywords, 0 < k.toList.length := by decide
    have positive := shown keyword known
    have kept : (trimStart text).length ≤ text.length := List.length_dropWhile_le isBlank text
    rw [same, ← leads] at shorter
    have lengths := congrArg List.length shorter
    rw [List.length_append] at lengths
    omega
  · intro bare
    have kept : (canonicalName name).toList = trim name.toList :=
      canonicalName_unmarked (by rwa [trimmed])
    exact String.toList_injective (kept.trans trimmed)

/-- What is left of a name begins with a keyword where the name began with two. -/
theorem marked_canonicalName_iff : Marked (canonicalName raw).toList ↔ TwiceMarked raw := by
  constructor
  · rintro ⟨second, listed, after⟩
    by_cases marked : Marked (trim raw.toList)
    · obtain ⟨first, known, text, leads⟩ := marked
      rw [canonicalName_marked known leads.symm] at after
      obtain ⟨rest, after⟩ := after
      refine ⟨first, known, second, listed, text.takeWhile isBlank, fun c => List.mem_takeWhile_imp,
        rest, ?_⟩
      calc first.toList ++ text.takeWhile isBlank ++ second.toList ++ rest
          = first.toList ++ (text.takeWhile isBlank ++ (second.toList ++ rest)) := by simp
        _ = first.toList ++ (text.takeWhile isBlank ++ text.dropWhile isBlank) := by
            rw [after, trimStart]
        _ = trim raw.toList := by rw [List.takeWhile_append_dropWhile, leads]
    · rw [canonicalName_unmarked marked] at after
      exact absurd ⟨second, listed, after⟩ marked
  · rintro ⟨first, known, second, listed, blanks, blank, rest, leads⟩
    have split : trim raw.toList = first.toList ++ (blanks ++ (second.toList ++ rest)) := by
      simp [← leads]
    refine ⟨second, listed, rest, ?_⟩
    rw [canonicalName_marked known split,
      trimStart_append blank (trimStart_keyword_append listed rest)]

/-- Making a name canonical again changes nothing, unless it began with two keywords. -/
theorem canonicalName_twice (once : ¬ TwiceMarked raw) :
    canonicalName (canonicalName raw) = canonicalName raw :=
  (canonicalName_eq_self_iff (trim_canonicalName raw)).mpr (mt marked_canonicalName_iff.mp once)

/-- The same types, each user type under its canonical name. -/
def Universe.canonical (u : Universe) : Universe where
  userType key := { u.userType key with name := canonicalName (u.userType key).name }

variable {u : Universe} {type : TypeKey}

theorem Universe.hash_canonical (once : ¬ TwiceMarked (u.rawName type)) :
    u.canonical.hash type = u.hash type := by
  cases type with
  | primitive kind => rfl
  | user key => exact congrArg TypeHash.ofName (canonicalName_twice once)

theorem Universe.canonicalName_rawName (once : ¬ TwiceMarked (u.rawName type)) :
    canonicalName (u.canonical.rawName type) = canonicalName (u.rawName type) := by
  cases type with
  | primitive kind => rfl
  | user key => exact canonicalName_twice once

theorem Registry.insertSkeleton_canonical (once : ¬ TwiceMarked (u.rawName type)) (r : Registry)
    (owner : ModuleId) : r.insertSkeleton u.canonical type owner = r.insertSkeleton u type owner := by
  have size : u.canonical.size type = u.size type := by cases type <;> rfl
  have align : u.canonical.align type = u.align type := by cases type <;> rfl
  simp only [insertSkeleton, size, align, Universe.hash_canonical once,
    Universe.canonicalName_rawName once]

/-- A name made canonical stays as it is when it is made canonical again exactly if it did not begin
with two aggregate keywords. A type whose name does not begin so has the same hash under its canonical
name, and entering it under that name does to a registry what entering it under its own name does. -/
theorem canonicalName_stable_iff :
    (∀ raw, canonicalName (canonicalName raw) = canonicalName raw ↔ ¬ TwiceMarked raw) ∧
    ∀ (u : Universe) type, ¬ TwiceMarked (u.rawName type) →
      u.canonical.hash type = u.hash type ∧
      ∀ (r : Registry) owner, r.insertSkeleton u.canonical type owner =
        r.insertSkeleton u type owner := by
  refine ⟨fun raw => ⟨fun same twice => ?_, canonicalName_twice⟩, fun u type once =>
    ⟨Universe.hash_canonical once, Registry.insertSkeleton_canonical once⟩⟩
  exact (canonicalName_eq_self_iff (trim_canonicalName raw)).mp same
    (marked_canonicalName_iff.mpr twice)

/-- A name with a keyword in front and blanks around it. -/
theorem canonicalName_stable_of_one_keyword :
    Gallery.knownTypes.rawName (.user "E") = "  enum zoo::E " ∧
      Gallery.knownTypes.canonical.rawName (.user "E") = "zoo::E" ∧
      Gallery.knownTypes.canonical.hash (.user "E") = Gallery.knownTypes.hash (.user "E") := by
  have raw : Gallery.knownTypes.rawName (.user "E") = "  enum zoo::E " := by decide +kernel
  have once : ¬ TwiceMarked (Gallery.knownTypes.rawName (.user "E")) :=
    (canonicalName_stable_iff.1 _).mp (by rw [raw]; decide +kernel)
  exact ⟨raw, by decide +kernel, (canonicalName_stable_iff.2 _ _ once).1⟩

/-- Of two keywords the first pass takes off one, and the second the other. -/
theorem canonicalName_of_two_keywords :
    let u : Universe := ⟨fun key => ⟨"struct struct " ++ key, 8, 4, true⟩⟩
    canonicalName (canonicalName "struct struct Point") ≠ canonicalName "struct struct Point" ∧
      u.canonical.hash (.user "Point") ≠ u.hash (.user "Point") := by
  decide +kernel

end TypeCatalog
