import TypeCatalog.TypeHash

/-!
What a signature tells of a method. The parameters are folded in by operations that can be undone, so
that two signatures over the same parameters agree exactly if the words agree that they start from.
Such a word is the exclusive or of the hashes of the owner's name and of the method's, in which the two
names have the same part: exchanging them leaves it as it is, and a method that is called like its
owner leaves nothing of either.
-/
namespace TypeCatalog

/-- Whether different texts among these have different hashes. -/
def Xxh64.TellsApart (texts : List String) : Prop :=
  ∀ a ∈ texts, ∀ b ∈ texts, hashText a = hashText b → a = b

instance (texts : List String) : Decidable (Xxh64.TellsApart texts) := by
  unfold Xxh64.TellsApart
  infer_instance

namespace TypeHash

/-- The separator is odd, so that multiplying by it can be undone. -/
def unseparator : UInt64 := 0xd3f20f0a40208825

theorem separator_mul_unseparator : separator * unseparator = 1 := by decide

theorem mul_separator_inj {a b : UInt64} : a * separator = b * separator ↔ a = b := by
  constructor
  · intro same
    have undone := congrArg (· * unseparator) same
    simpa only [UInt64.mul_assoc, separator_mul_unseparator, UInt64.mul_one] using undone
  · rintro rfl
    rfl

theorem foldParams_inj (position : Nat) (params : List TypeHash) {a b : UInt64} :
    foldParams position a params = foldParams position b params ↔ a = b := by
  induction params generalizing position a b with
  | nil => rfl
  | cons param params ih =>
    rw [foldParams, foldParams, ih, UInt64.add_left_inj, mul_separator_inj]

theorem ofMethod_eq_iff {o p : TypeHash} {m n : String} (params : List TypeHash) :
    ofMethod o m params = ofMethod p n params ↔
      o.value ^^^ Xxh64.hashText m = p.value ^^^ Xxh64.hashText n := by
  rw [ofMethod, ofMethod, TypeHash.mk.injEq, foldParams_inj, UInt64.xor_assoc, UInt64.xor_assoc,
    UInt64.xor_right_inj]

/-- The markers of types cancel, so that the hashes of the names are left. -/
theorem ofMethod_ofName_eq_iff {o m p n : String} (params : List TypeHash) :
    ofMethod (ofName o) m params = ofMethod (ofName p) n params ↔
      Xxh64.hashText o ^^^ Xxh64.hashText m = Xxh64.hashText p ^^^ Xxh64.hashText n := by
  rw [ofMethod_eq_iff, ofName, ofName, UInt64.xor_assoc, UInt64.xor_assoc, UInt64.xor_right_inj]

theorem ofMethod_exchanged (o m : String) (params : List TypeHash) :
    ofMethod (ofName o) m params = ofMethod (ofName m) o params :=
  (ofMethod_ofName_eq_iff params).mpr (UInt64.xor_comm _ _)

theorem ofMethod_named_as_owner (o p : String) (params : List TypeHash) :
    ofMethod (ofName o) o params = ofMethod (ofName p) p params :=
  (ofMethod_ofName_eq_iff params).mpr (UInt64.xor_self.trans UInt64.xor_self.symm)

/-- Of methods of one type the names tell, and of methods of one name the types. -/
theorem name_of_ofMethod_eq {o m p n : String} (apart : Xxh64.TellsApart [o, m, p, n])
    {params : List TypeHash} (agree : ofMethod (ofName o) m params = ofMethod (ofName p) n params) :
    o = p ↔ m = n := by
  have words := (ofMethod_ofName_eq_iff params).mp agree
  constructor
  · rintro rfl
    exact apart m (by simp) n (by simp) ((UInt64.xor_right_inj _).mp words)
  · rintro rfl
    exact apart o (by simp) p (by simp) ((UInt64.xor_left_inj _).mp words)

/-- A name that an owner has in common with a method is told by the other two names. -/
theorem exchanged_of_ofMethod_eq {o m p n : String} (apart : Xxh64.TellsApart [o, m, p, n])
    {params : List TypeHash} (agree : ofMethod (ofName o) m params = ofMethod (ofName p) n params) :
    o = n ↔ m = p := by
  have words := (ofMethod_ofName_eq_iff params).mp agree
  constructor
  · rintro rfl
    rw [UInt64.xor_comm (Xxh64.hashText p), UInt64.xor_right_inj] at words
    exact apart m (by simp) p (by simp) words
  · rintro rfl
    rw [UInt64.xor_comm (Xxh64.hashText o), UInt64.xor_right_inj] at words
    exact apart o (by simp) n (by simp) words

theorem own_names_of_ofMethod_eq {o m p n : String} (apart : Xxh64.TellsApart [o, m, p, n])
    {params : List TypeHash} (agree : ofMethod (ofName o) m params = ofMethod (ofName p) n params) :
    o = m ↔ p = n := by
  have words := (ofMethod_ofName_eq_iff params).mp agree
  constructor
  · rintro rfl
    rw [UInt64.xor_self, eq_comm, UInt64.xor_eq_zero_iff] at words
    exact apart p (by simp) n (by simp) words
  · rintro rfl
    rw [UInt64.xor_self, UInt64.xor_eq_zero_iff] at words
    exact apart o (by simp) m (by simp) words

/-- When two methods of the same parameters have one signature, as far as the hashes of their names
and of their owners' names tell these apart: if they are the same method of the same type; if each is
called like the other's owner; if each is called like its own owner; and if the hashes of four
different names happen to cancel. So a signature tells two methods apart if these have the name or
the owner in common, but not always otherwise. -/
theorem signatures_agree_iff {o m p n : String} (apart : Xxh64.TellsApart [o, m, p, n])
    (params : List TypeHash) :
    (ofMethod (ofName o) m params = ofMethod (ofName p) n params ↔
      o = p ∧ m = n ∨ o = n ∧ m = p ∨ o = m ∧ p = n ∨ [o, m, p, n].Nodup ∧
        Xxh64.hashText o ^^^ Xxh64.hashText m = Xxh64.hashText p ^^^ Xxh64.hashText n) ∧
    (o = p ∨ m = n → ofMethod (ofName o) m params = ofMethod (ofName p) n params →
      o = p ∧ m = n) := by
  constructor
  · constructor
    · intro agree
      have same := name_of_ofMethod_eq apart agree
      have exchanged := exchanged_of_ofMethod_eq apart agree
      have own := own_names_of_ofMethod_eq apart agree
      have words := (ofMethod_ofName_eq_iff params).mp agree
      by_cases first : o = p
      · exact .inl ⟨first, same.mp first⟩
      · by_cases second : o = n
        · exact .inr (.inl ⟨second, exchanged.mp second⟩)
        · by_cases third : o = m
          · exact .inr (.inr (.inl ⟨third, own.mp third⟩))
          · exact .inr (.inr (.inr ⟨by simp [first, second, third, ← same, ← exchanged, ← own],
              words⟩))
    · rintro (⟨rfl, rfl⟩ | ⟨rfl, rfl⟩ | ⟨rfl, rfl⟩ | ⟨-, words⟩)
      · rfl
      · exact ofMethod_exchanged _ _ params
      · exact ofMethod_named_as_owner _ _ params
      · exact (ofMethod_ofName_eq_iff params).mpr words
  · intro shared agree
    have same := name_of_ofMethod_eq apart agree
    rcases shared with first | second
    · exact ⟨first, same.mp first⟩
    · exact ⟨same.mpr second, second⟩

/-- Two types that have a method of one name and with one parameter. -/
theorem owners_told_apart :
    let i32 := ofName "i32"
    Xxh64.TellsApart ["Calc", "scale", "Point", "scale"] ∧
      ofMethod (ofName "Calc") "scale" [i32] ≠ ofMethod (ofName "Point") "scale" [i32] := by
  intro i32
  have apart : Xxh64.TellsApart ["Calc", "scale", "Point", "scale"] := by decide +kernel
  refine ⟨apart, fun agree => ?_⟩
  have same := (signatures_agree_iff apart [i32]).2 (.inr rfl) agree
  exact absurd same.1 (by decide)

/-- Two types that have a method called like the other type. -/
theorem exchanged_names_agree :
    let i32 := ofName "i32"
    Xxh64.TellsApart ["A", "B", "B", "A"] ∧
      ofMethod (ofName "A") "B" [i32] = ofMethod (ofName "B") "A" [i32] ∧
      ¬ ("A" = "B" ∧ "B" = "A") :=
  ⟨by decide +kernel, ofMethod_exchanged "A" "B" _, by decide⟩

end TypeHash

end TypeCatalog
