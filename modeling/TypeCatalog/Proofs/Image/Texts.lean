import Mathlib.Algebra.BigOperators.Group.Finset.Basic
import TypeCatalog.Proofs.Image.Reading

/-!
The text section. A text is appended when it is added first and found when it is added again; what is
in the section never moves, so a reference once given denotes its text in every later section. The
texts of an export, be they names, keys or values, all go through one table.
-/
namespace TypeCatalog.Image

namespace TextTable

variable {t : TextTable} {text : String} {ref : TextRef} {texts : List String}

/-- The reference that has been given for a text. -/
def ref? (t : TextTable) (text : String) : Option TextRef :=
  (t.seen.find? (·.1 = text)).map Prod.snd

theorem add_of_ref? (given : t.ref? text = some ref) : t.add text = (ref, t) := by
  obtain ⟨entry, found, rfl⟩ := Option.map_eq_some_iff.mp given
  rw [add, found]

/-- A text that is new comes last in the section. -/
theorem add_new (new : t.ref? text = none) :
    t.add text = (⟨UInt32.ofNat t.bytes.length, UInt32.ofNat (utf8 text).length⟩,
      ⟨t.bytes ++ utf8 text, t.seen ++
        [(text, ⟨UInt32.ofNat t.bytes.length, UInt32.ofNat (utf8 text).length⟩)]⟩) := by
  rw [add, Option.map_eq_none_iff.mp new]
  rfl

theorem ref?_eq_none_iff : t.ref? text = none ↔ text ∉ t.seen.map Prod.fst := by
  rw [ref?, Option.map_eq_none_iff, List.find?_eq_none, List.mem_map]
  constructor
  · rintro others ⟨entry, listed, same⟩
    exact others entry listed (decide_eq_true same)
  · intro absent entry listed same
    exact absent ⟨entry, listed, of_decide_eq_true same⟩

theorem ref?_add_self (t : TextTable) (text : String) :
    (t.add text).2.ref? text = some (t.add text).1 := by
  cases given : t.ref? text with
  | some ref => rw [add_of_ref? given, given]
  | none =>
    rw [add_new given, ref?, List.find?_append, Option.map_eq_none_iff.mp given]
    simp

/-- A reference is not given anew. -/
theorem ref?_add (given : t.ref? text = some ref) (other : String) :
    (t.add other).2.ref? text = some ref := by
  cases known : t.ref? other with
  | some _ => rw [add_of_ref? known, given]
  | none =>
    obtain ⟨entry, found, rfl⟩ := Option.map_eq_some_iff.mp given
    rw [add_new known, ref?, List.find?_append, found]
    rfl

/-- Texts that are added one after another, with the references that are given for them. -/
def addAll (t : TextTable) : List String → List TextRef × TextTable
  | [] => ([], t)
  | text :: texts =>
    let (ref, t) := t.add text
    let (refs, t) := t.addAll texts
    (ref :: refs, t)

theorem addAll_append (t : TextTable) (texts more : List String) :
    (t.addAll (texts ++ more)).2 = ((t.addAll texts).2.addAll more).2 := by
  induction texts generalizing t with
  | nil => rfl
  | cons text texts ih => exact ih (t.add text).2

theorem ref?_addAll (given : t.ref? text = some ref) (texts : List String) :
    (t.addAll texts).2.ref? text = some ref := by
  induction texts generalizing t with
  | nil => exact given
  | cons other texts ih => exact ih (ref?_add given other)

/-- Every reference that is given for a text is the one that the text has in the end. -/
theorem refs_addAll (t : TextTable) (texts : List String) :
    List.Forall₂ (fun text ref => (t.addAll texts).2.ref? text = some ref) texts
      (t.addAll texts).1 := by
  induction texts generalizing t with
  | nil => exact .nil
  | cons text texts ih => exact .cons (ref?_addAll (ref?_add_self t text) texts) (ih (t.add text).2)

/-- A table into which these texts have been added: each of them is in the section once, in the order
in which they came first, and has the reference to where it is. -/
structure Filled (t : TextTable) (texts : List String) : Prop where
  sound : t.Sound
  distinct : (t.seen.map Prod.fst).Nodup
  seen : t.seen.map Prod.fst = texts.eraseDups
  bytes : t.bytes = texts.eraseDups.flatMap utf8

theorem filled_empty : Filled {} [] :=
  ⟨fun _ listed => absurd listed List.not_mem_nil, .nil, rfl, rfl⟩

theorem eraseDups_push (texts : List String) (text : String) :
    (texts ++ [text]).eraseDups =
      if text ∈ texts then texts.eraseDups else texts.eraseDups ++ [text] := by
  rw [List.eraseDups_append]
  split
  next known => simp [List.removeAll, known]
  next new => simp [List.removeAll, new, List.eraseDups_cons]

theorem Filled.add (filled : t.Filled texts) (text : String) :
    (t.add text).2.Filled (texts ++ [text]) := by
  have known : text ∈ t.seen.map Prod.fst ↔ text ∈ texts := by
    rw [filled.seen, List.mem_eraseDups]
  have sound := (add_spec filled.sound text).1
  cases given : t.ref? text with
  | some ref =>
    have before : text ∈ texts := by
      rw [← known]
      by_contra absent
      rw [ref?_eq_none_iff.mpr absent] at given
      cases given
    rw [add_of_ref? given]
    refine ⟨filled.sound, filled.distinct, ?_, ?_⟩
    · rw [eraseDups_push, if_pos before, filled.seen]
    · rw [eraseDups_push, if_pos before, filled.bytes]
  | none =>
    have absent := ref?_eq_none_iff.mp given
    rw [add_new given] at sound ⊢
    refine ⟨sound, ?_, ?_, ?_⟩
    · simpa only [List.map_append, List.map_singleton, List.concat_eq_append] using
        filled.distinct.concat absent
    · rw [eraseDups_push, if_neg (mt known.mpr absent), List.map_append, filled.seen]
      rfl
    · rw [eraseDups_push, if_neg (mt known.mpr absent), List.flatMap_append, filled.bytes,
        List.flatMap_singleton]

theorem Filled.addAll (filled : t.Filled texts) (more : List String) :
    (t.addAll more).2.Filled (texts ++ more) := by
  induction more generalizing t texts with
  | nil => rwa [List.append_nil]
  | cons text more ih =>
    have rest := ih (filled.add text)
    rwa [List.append_assoc] at rest

theorem length_utf8 (text : String) : (utf8 text).length = text.utf8ByteSize := by
  simp [utf8]

theorem Filled.length_bytes (filled : t.Filled texts) :
    t.bytes.length = ∑ text ∈ texts.toFinset, text.utf8ByteSize := by
  have distinct := filled.distinct
  rw [filled.seen] at distinct
  have same : texts.toFinset = texts.eraseDups.toFinset := by
    ext text
    simp
  rw [same, List.sum_toFinset _ distinct, filled.bytes, List.length_flatMap]
  simp only [length_utf8]

theorem Filled.means (filled : t.Filled texts) (given : t.ref? text = some ref) :
    ref.Means t.bytes text := by
  obtain ⟨entry, found, rfl⟩ := Option.map_eq_some_iff.mp given
  have same : entry.1 = text := by simpa using List.find?_some found
  exact same ▸ filled.sound entry (List.mem_of_find?_eq_some found)

end TextTable

theorem TextRef.Means.slice {ref : TextRef} {bytes : List UInt8} {text : String}
    (means : ref.Means bytes text) (small : bytes.length < UInt32.size) :
    (bytes.drop ref.offset.toNat).take ref.length.toNat = utf8 text := by
  obtain ⟨start, there, rfl⟩ := means
  have bound := there.bound
  rw [UInt32.toNat_ofNat_of_lt' (by omega), UInt32.toNat_ofNat_of_lt' (by omega), there.slice]

/-- The texts of an attribute: its key, and a text that is its value. -/
def attributeTexts (a : Attribute) : List String :=
  a.key.text :: match a.value with
    | .string text => [text]
    | _ => []

def attributesTexts (attributes : List Attribute) : List String :=
  attributes.flatMap attributeTexts

/-- The texts of a row in the order in which they are written. -/
def rowTexts (row : Row) : List String :=
  row.name.text :: row.fields.flatMap (fun f => f.name.text :: attributesTexts f.attributes)
    ++ row.methods.flatMap (fun m => m.name.text :: attributesTexts m.attributes)
    ++ row.constructors.flatMap (attributesTexts ·.attributes) ++ attributesTexts row.attributes

namespace Sections

variable {s t v : Sections} {texts more : List String}

/-- Whether these texts, in this order, are what has been added to the texts of sections. -/
def Writes (s : Sections) (texts : List String) (t : Sections) : Prop :=
  t.texts = (s.texts.addAll texts).2

theorem Writes.trans (first : s.Writes texts t) (second : t.Writes more v) :
    s.Writes (texts ++ more) v := by
  rw [Writes, TextTable.addAll_append, ← first]
  exact second

theorem writes_foldl {α : Type} {step : Sections → α → Sections} {write : α → List String}
    (one : ∀ (s : Sections) a, s.Writes (write a) (step s a)) (s : Sections) (items : List α) :
    s.Writes (items.flatMap write) (items.foldl step s) := by
  induction items generalizing s with
  | nil => rfl
  | cons a items ih => exact (one s a).trans (ih (step s a))

theorem writes_addText (s : Sections) (text : String) : s.Writes [text] (s.addText text).2 := rfl

theorem writes_addAttribute (s : Sections) (a : Attribute) :
    s.Writes (attributeTexts a) (s.addAttribute a) := by
  have keyed := writes_addText s a.key.text
  obtain ⟨key, value⟩ := a
  cases value with
  | string text => exact keyed.trans (writes_addText (s.addText key.text).2 text)
  | _ => exact keyed

theorem writes_addAttributes (s : Sections) (attributes : List Attribute) :
    s.Writes (attributesTexts attributes) (s.addAttributes attributes).2 :=
  writes_foldl writes_addAttribute s attributes

theorem writes_addField (s : Sections) (f : Field) :
    s.Writes (f.name.text :: attributesTexts f.attributes) (s.addField f) :=
  (writes_addText s f.name.text).trans (writes_addAttributes _ f.attributes)

theorem writes_addMethod (s : Sections) (m : Method) :
    s.Writes (m.name.text :: attributesTexts m.attributes) (s.addMethod m) :=
  (writes_addText s m.name.text).trans
    (writes_addAttributes ((s.addText m.name.text).2.addParams m.params).2 m.attributes)

theorem writes_addConstructor (s : Sections) (c : Constructor) :
    s.Writes (attributesTexts c.attributes) (s.addConstructor c) :=
  writes_addAttributes (s.addParams c.params).2 c.attributes

theorem writes_addType (s : Sections) (row : Row) : s.Writes (rowTexts row) (s.addType row) := by
  have named := writes_addText s row.name.text
  have fields := named.trans (writes_foldl writes_addField _ row.fields)
  have methods := fields.trans (writes_foldl writes_addMethod _ row.methods)
  have constructors := methods.trans (writes_foldl writes_addConstructor _ row.constructors)
  exact constructors.trans (writes_addAttributes _ row.attributes)

theorem writes_ofRows (exports : ExportTable) (rows : List Row) :
    Writes { exports } (rows.flatMap rowTexts) (ofRows exports rows) :=
  writes_foldl writes_addType _ rows

end Sections

namespace TextTable

/-- Whatever texts are added to an empty table, a reference is given for each; adding one of them again
gives that reference and changes nothing. While the section is short enough for references, the bytes
that the reference tells in the end are those of the text, and that text is read there. Each text is in
the section once, in the order in which they came first, so the section is as long as the different
texts are together. The texts of an export are such a table, of the names, keys and values of all its
types. -/
theorem addAll_faithful :
    (∀ texts : List String,
      let refs := (addAll {} texts).1
      let t := (addAll {} texts).2
      refs.length = texts.length ∧
      (∀ (i : Nat) text ref, texts[i]? = some text → refs[i]? = some ref →
        t.add text = (ref, t) ∧
        (t.bytes.length < UInt32.size →
          (t.bytes.drop ref.offset.toNat).take ref.length.toNat = utf8 text ∧
          ∀ v : View, v.texts = t.bytes → v.text? ref = some text)) ∧
      t.bytes = texts.eraseDups.flatMap utf8 ∧
      t.bytes.length = ∑ text ∈ texts.toFinset, text.utf8ByteSize) ∧
    ∀ exports rows, (Sections.ofRows exports rows).texts = (addAll {} (rows.flatMap rowTexts)).2 := by
  refine ⟨fun texts => ?_, Sections.writes_ofRows⟩
  have filled := filled_empty.addAll texts
  have given := refs_addAll {} texts
  rw [List.nil_append] at filled
  refine ⟨given.length_eq.symm, fun i text ref told found => ?_, filled.bytes, filled.length_bytes⟩
  obtain ⟨within, rfl⟩ := List.getElem?_eq_some_iff.mp told
  obtain ⟨below, rfl⟩ := List.getElem?_eq_some_iff.mp found
  have known := given.get within below
  have means := filled.means known
  refine ⟨add_of_ref? known, fun small => ⟨means.slice small, fun v same => ?_⟩⟩
  exact View.text?_of_means (same ▸ small) (same ▸ means)

/-- A text of several bytes and one of none among others, and one that is added twice. -/
theorem addAll_faithful_utf8 :
    let texts := ["len", "größe", "", "len"]
    let t := (addAll {} texts).2
    (addAll {} texts).1 = [⟨0, 3⟩, ⟨3, 7⟩, ⟨10, 0⟩, ⟨0, 3⟩] ∧ t.bytes.length = 10 ∧
      t.add "len" = (⟨0, 3⟩, t) ∧
      ∀ v : View, v.texts = t.bytes → v.text? ⟨3, 7⟩ = some "größe" := by
  intro texts t
  obtain ⟨-, kept, -⟩ := addAll_faithful.1 texts
  refine ⟨by decide +kernel, by decide +kernel, (kept 3 _ _ rfl (by decide +kernel)).1, ?_⟩
  exact ((kept 1 _ _ rfl (by decide +kernel)).2 (by decide +kernel)).2

end TextTable

end TypeCatalog.Image
