import TypeCatalog.Proofs.Calls
import TypeCatalog.Proofs.Selection

/-!
Ranking and converting. A rank is found from two hashes and the classes of the built-in types behind
them; a conversion looks at the datum, reads it at 64 bits and casts it. Among types of different
hashes the two agree: a rank is viable exactly when there is a datum to pass, and an exact rank
passes the value as it is. Integers are read without loss, so that converting one keeps its low
bits.
-/
namespace TypeCatalog

theorem ParamRank.ofPrimitives_numeric {source target : PrimitiveKind}
    (numeric : source.isNumeric = true) (accepts : target.isNumeric = true) :
    (ofPrimitives source target).isViable = true := by
  obtain ⟨s, first⟩ := Option.isSome_iff_exists.mp numeric
  obtain ⟨t, second⟩ := Option.isSome_iff_exists.mp accepts
  rw [ofPrimitives]
  split
  · rfl
  · rw [first, second]
    have small := (cost_ofClasses s t source.rank target.rank).2
    exact decide_eq_true (Nat.lt_of_le_of_lt small (by decide))

theorem IntegerKind.bits_le (kind : IntegerKind) : kind.bits ≤ 64 := by
  obtain ⟨signed, width⟩ := kind
  cases width <;> simp [bits, Width.bytes]

/-- Integers of at most 64 bits are read without loss, so that the cast is one of the integer. -/
theorem Numeric.ofValue?_integer (kind : IntegerKind) (bits : BitVec kind.bits) :
    ∃ n, ofValue? (.integer kind bits) = some n ∧
      ∀ target, n.toInteger target = .ofInt target (kind.toInt bits) := by
  refine ⟨_, rfl, fun target => ?_⟩
  have narrow : 2 ^ kind.bits ≤ 2 ^ 64 := Nat.pow_le_pow_right (by decide) kind.bits_le
  cases signed : kind.signed with
  | true =>
    have wide : (2 : Int) ^ kind.bits ≤ 2 ^ 64 := mod_cast narrow
    have low := BitVec.le_two_mul_toInt (x := bits)
    have high := BitVec.two_mul_toInt_lt (x := bits)
    have same : (Int64.ofInt bits.toInt).toInt = bits.toInt := by
      apply Int64.toInt_ofInt_of_le <;> omega
    simp [IntegerKind.toInt, signed, toInteger, same]
  | false =>
    have high := bits.isLt
    have same : (UInt64.ofInt (bits.toNat : Int)).toNat = bits.toNat := by
      rw [UInt64.ofInt, UInt64.toNat_ofNat']
      omega
    simp [IntegerKind.toInt, signed, toInteger, same]

/-- An integer that is converted to another integer type keeps its low bits. -/
theorem convertNumeric_integer (source target : IntegerKind) (bits : BitVec source.bits) :
    convertNumeric (.integer source bits) (.integer target) =
      some (.ofInt target (source.toInt bits)) := by
  obtain ⟨n, read, cast⟩ := Numeric.ofValue?_integer source bits
  rw [convertNumeric, read, Option.map_some, cast]

/-- Nothing but a numeric datum converts, and to a numeric type only. -/
theorem numeric_of_convertNumeric {v w : Value} {kind : PrimitiveKind}
    (converted : convertNumeric v kind = some w) :
    kind.isNumeric = true ∧ ∃ source, v.typeOf = .primitive source ∧ source.isNumeric = true := by
  have read : ∀ {n}, Numeric.ofValue? v = some n →
      ∃ source, v.typeOf = .primitive source ∧ source.isNumeric = true := by
    intro n found
    cases v with
    | integer | single | double => exact ⟨_, rfl, rfl⟩
    | _ => cases found
  cases kind with
  | integer | float =>
    obtain ⟨n, found, -⟩ := Option.map_eq_some_iff.mp converted
    exact ⟨rfl, read found⟩
  | _ => cases converted

namespace Program

variable {P : Program} {v : Value} {type : TypeKey}

/-- A type other than the value's own takes a numeric conversion, if it is built in. -/
theorem coerce_of_ne (accepted : type ∈ P.types) (other : v.typeOf ≠ type) (datum : Value) :
    coerce P.facts v type = some datum ↔
      ∃ kind, type = .primitive kind ∧ convertNumeric v kind = some datum := by
  have nothing : v.get? type = none := by simp [Value.get?, Value.is, other]
  unfold coerce
  rw [nothing]
  simp only [Option.bind_eq_bind, Option.bind_eq_some_iff]
  constructor
  · rintro ⟨kind, found, w, converted, got⟩
    refine ⟨kind, eq_primitive accepted found, ?_⟩
    unfold Value.get? at got
    split at got <;> cases got
    exact converted
  · rintro ⟨kind, rfl, converted⟩
    obtain ⟨accepts, source, own, numeric⟩ := numeric_of_convertNumeric converted
    obtain ⟨w, again, target, full⟩ := convertNumeric_of_numeric own numeric accepts
    cases again.symm.trans converted
    exact ⟨kind, kind.ofHash?_typeHash, datum, converted, Value.get?_of_typeOf target full⟩

/-- What converts has a viable rank. -/
theorem viable_of_coerce (accepted : type ∈ P.types) {datum : Value}
    (taken : coerce P.facts v type = some datum) :
    (rank (v.typeHash P.facts) (P.facts.hash type)).isViable = true := by
  rcases eq_or_ne v.typeOf type with same | other
  · rw [Value.typeHash, same, rank, if_pos rfl]
    rfl
  · obtain ⟨target, rfl, converted⟩ := (coerce_of_ne accepted other datum).mp taken
    obtain ⟨accepts, source, own, numeric⟩ := numeric_of_convertNumeric converted
    have ranked : rank (v.typeHash P.facts) (P.facts.hash (.primitive target)) =
        .ofPrimitives source target := by
      rw [Value.typeHash, own]
      exact rank_typeHash source target
    rw [ranked]
    exact ParamRank.ofPrimitives_numeric numeric accepts

variable (P)

/-- Ranking and converting agree, for each value and each type: a rank is viable exactly when the
value converts, to itself if the rank is exact and to its numeric conversion otherwise. -/
theorem viable_iff_coerces (known : v.typeOf ∈ P.types) (accepted : type ∈ P.types)
    (present : v.isVoid = false) :
    ((rank (v.typeHash P.facts) (P.facts.hash type)).isViable = true ↔
      ∃ datum, coerce P.facts v type = some datum) ∧
    ((rank (v.typeHash P.facts) (P.facts.hash type)).isExact = true →
      coerce P.facts v type = some v) ∧
    ((rank (v.typeHash P.facts) (P.facts.hash type)).isViable = true →
      (rank (v.typeHash P.facts) (P.facts.hash type)).isExact = false →
      ∃ kind, type = .primitive kind ∧ ∃ datum, convertNumeric v kind = some datum ∧
        coerce P.facts v type = some datum) := by
  have exact_iff : (rank (v.typeHash P.facts) (P.facts.hash type)).isExact = true ↔
      v.typeOf = type :=
    rank_isExact_iff.trans (P.distinct.eq_iff known accepted)
  refine ⟨⟨coerce_of_viable known accepted present, ?_⟩, ?_, ?_⟩
  · rintro ⟨datum, taken⟩
    exact viable_of_coerce accepted taken
  · intro exact
    rw [coerce, Value.get?_of_typeOf (exact_iff.mp exact) present]
  · intro viable inexact
    obtain ⟨datum, taken⟩ := coerce_of_viable known accepted present viable
    have other : v.typeOf ≠ type := by
      intro same
      rw [exact_iff.mpr same] at inexact
      cases inexact
    obtain ⟨kind, rfl, converted⟩ := (coerce_of_ne accepted other datum).mp taken
    exact ⟨kind, rfl, datum, converted, taken⟩

end Program

namespace Embedded

/-- An integer of 32 bits is cut to its low 8 bits, at the rank of a conversion that narrows. -/
theorem integer_narrowed :
    rank ((Value.ofInt ⟨true, .w32⟩ 300).typeHash program.facts)
        (program.facts.hash (.primitive (.integer ⟨false, .w8⟩))) =
      ⟨ParamRank.signOrNarrowingCost, true⟩ ∧
    coerce program.facts (.ofInt ⟨true, .w32⟩ 300) (.primitive (.integer ⟨false, .w8⟩)) =
      some (.ofInt ⟨false, .w8⟩ 44) := by
  have ranked : rank ((Value.ofInt ⟨true, .w32⟩ 300).typeHash program.facts)
      (program.facts.hash (.primitive (.integer ⟨false, .w8⟩))) =
        ⟨ParamRank.signOrNarrowingCost, true⟩ := by decide +kernel
  have given : (Value.ofInt ⟨true, .w32⟩ 300).typeOf ∈ program.types := program.builtIn _
  have wanted : TypeKey.primitive (.integer ⟨false, .w8⟩) ∈ program.types := program.builtIn _
  obtain ⟨-, -, converts⟩ := program.viable_iff_coerces given wanted rfl
  rw [ranked] at converts
  obtain ⟨kind, same, datum, converted, taken⟩ := converts rfl rfl
  cases same
  rw [Value.ofInt, convertNumeric_integer] at converted
  exact ⟨ranked, taken.trans converted.symm⟩

end Embedded

end TypeCatalog
