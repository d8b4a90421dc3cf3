import Mathlib.Data.Int.ModEq
import TypeCatalog.Proofs.Coercion

/-!
Integers of one type as integers of another. An integer passes through 64 bits on the way, which hold
all that it has, and is then cut to the width of the target; so what arrives is the one integer of the
target type with the same residue. Going back gives the integer again unless bits have been cut off,
and a rank is marked as narrowing, from the classes and widths of the types alone, exactly where this
can happen.
-/
namespace TypeCatalog

namespace IntegerKind

variable (kind source target : IntegerKind)

theorem bits_pos : 0 < kind.bits := by
  obtain ⟨signed, width⟩ := kind
  cases width <;> simp [bits, Width.bytes]

/-- The integers of a kind. -/
def Holds (n : Int) : Prop := kind.least ≤ n ∧ n ≤ kind.greatest

theorem ofInt_toInt (bits : BitVec kind.bits) : BitVec.ofInt kind.bits (kind.toInt bits) = bits := by
  cases signed : kind.signed with
  | true => simp [toInt, signed]
  | false => simp [toInt, signed]

/-- An integer that is cut to the width of a kind keeps its residue. -/
theorem toInt_ofInt_modEq (n : Int) :
    kind.toInt (BitVec.ofInt kind.bits n) ≡ n [ZMOD 2 ^ kind.bits] := by
  have power : ((2 ^ kind.bits : Nat) : Int) = 2 ^ kind.bits := by push_cast; rfl
  cases signed : kind.signed with
  | true =>
    simp only [toInt, signed, if_true, BitVec.toInt_ofInt, Int.ModEq, ← power]
    exact Int.bmod_emod
  | false =>
    have residue := Int.emod_nonneg n (b := 2 ^ kind.bits) (Int.pow_ne_zero (by decide))
    simp only [toInt, signed, BitVec.toNat_ofInt, power, Int.toNat_of_nonneg residue]
    exact Int.mod_modEq n _

theorem modEq_iff_ofInt_eq (m n : Int) :
    m ≡ n [ZMOD 2 ^ kind.bits] ↔ BitVec.ofInt kind.bits m = BitVec.ofInt kind.bits n := by
  constructor
  · intro same
    apply BitVec.eq_of_toNat_eq
    rw [BitVec.toNat_ofInt, BitVec.toNat_ofInt]
    push_cast
    rw [same]
  · intro same
    have first := kind.toInt_ofInt_modEq m
    rw [same] at first
    exact first.symm.trans (kind.toInt_ofInt_modEq n)

/-- The integers of a kind are those that its words stand for. -/
theorem holds_iff (n : Int) : kind.Holds n ↔ ∃ bits : BitVec kind.bits, kind.toInt bits = n := by
  have positive := kind.bits_pos
  have half : (2 : Int) ^ kind.bits = 2 * 2 ^ (kind.bits - 1) := by
    rw [← Int.pow_succ', Nat.sub_add_cancel positive]
  have power : ((2 ^ kind.bits : Nat) : Int) = 2 ^ kind.bits := by push_cast; rfl
  have words : 0 < 2 ^ kind.bits := Nat.two_pow_pos kind.bits
  cases signed : kind.signed with
  | true =>
    simp only [Holds, least, greatest, toInt, signed, if_true, BitVec.toInt_intMin_of_pos positive,
      BitVec.toInt_intMax]
    constructor
    · rintro ⟨low, high⟩
      refine ⟨BitVec.ofInt kind.bits n, ?_⟩
      rw [BitVec.toInt_ofInt]
      apply Int.bmod_eq_of_le <;> omega
    · rintro ⟨bits, rfl⟩
      have low := BitVec.le_two_mul_toInt (x := bits)
      have high := BitVec.two_mul_toInt_lt (x := bits)
      omega
  | false =>
    simp only [Holds, least, greatest, toInt, signed, BitVec.toNat_allOnes, Bool.false_eq_true,
      if_false]
    constructor
    · rintro ⟨low, high⟩
      refine ⟨BitVec.ofInt kind.bits n, ?_⟩
      rw [BitVec.toNat_ofInt, power, Int.emod_eq_of_lt low (by omega), Int.toNat_of_nonneg low]
    · rintro ⟨bits, rfl⟩
      have high := bits.isLt
      omega

/-- The integer that arrives is the only one of the target kind with the residue. -/
theorem modEq_iff_eq_toInt (v : Int) {n : Int} (own : kind.Holds n) :
    n ≡ v [ZMOD 2 ^ kind.bits] ↔ n = kind.toInt (BitVec.ofInt kind.bits v) := by
  constructor
  · intro same
    obtain ⟨bits, rfl⟩ := (kind.holds_iff n).mp own
    rw [← (kind.modEq_iff_ofInt_eq _ _).mp same, ofInt_toInt]
  · rintro rfl
    exact kind.toInt_ofInt_modEq v

/-- An integer of one kind that has been converted to another kind, and back. -/
def thereAndBack (bits : BitVec source.bits) : Option Value :=
  (convertNumeric (.integer source bits) (.integer target)).bind
    (convertNumeric · (.integer source))

theorem thereAndBack_eq (bits : BitVec source.bits) : thereAndBack source target bits =
    some (.ofInt source (target.toInt (BitVec.ofInt target.bits (source.toInt bits)))) := by
  rw [thereAndBack, convertNumeric_integer]
  exact convertNumeric_integer target source _

theorem thereAndBack_eq_some_iff (bits : BitVec source.bits) :
    thereAndBack source target bits = some (.integer source bits) ↔
      target.toInt (BitVec.ofInt target.bits (source.toInt bits)) ≡ source.toInt bits
        [ZMOD 2 ^ source.bits] := by
  rw [thereAndBack_eq, modEq_iff_ofInt_eq, ofInt_toInt, Option.some.injEq, Value.ofInt]
  simp

/-- Nothing is lost where the target is as wide as the source. -/
theorem recovered_of_le (wide : source.bits ≤ target.bits) (bits : BitVec source.bits) :
    thereAndBack source target bits = some (.integer source bits) :=
  (thereAndBack_eq_some_iff source target bits).mpr
    ((target.toInt_ofInt_modEq _).of_dvd (pow_dvd_pow 2 wide))

/-- Two to the width of the target becomes zero there. -/
theorem lost_of_lt (narrow : target.bits < source.bits) :
    thereAndBack source target (BitVec.ofInt source.bits (2 ^ target.bits)) ≠
      some (.integer source (BitVec.ofInt source.bits (2 ^ target.bits))) := by
  intro recovered
  have same := (thereAndBack_eq_some_iff source target _).mp recovered
  have kept := source.toInt_ofInt_modEq (2 ^ target.bits)
  have cut : source.toInt (BitVec.ofInt source.bits (2 ^ target.bits)) ≡ 0
      [ZMOD 2 ^ target.bits] :=
    (kept.of_dvd (pow_dvd_pow 2 (Nat.le_of_lt narrow))).trans
      (Int.modEq_zero_iff_dvd.mpr (dvd_refl _))
  have zero : target.toInt (BitVec.ofInt target.bits 0) = 0 := by
    cases signed : target.signed <;> simp [toInt, signed]
  rw [(target.modEq_iff_ofInt_eq _ _).mp cut, zero] at same
  have divides := Int.modEq_zero_iff_dvd.mp (same.trans kept).symm
  have less : (2 : Int) ^ target.bits < 2 ^ source.bits :=
    mod_cast Nat.pow_lt_pow_right (by decide) narrow
  exact absurd (Int.le_of_dvd (Int.pow_pos (by decide)) divides) (not_le.mpr less)

end IntegerKind

namespace ParamRank

theorem narrowing_ofClasses {source target : NumericClass} (first : source ≠ .float)
    (second : target ≠ .float) (sourceBytes targetBytes : Nat) :
    (ofClasses source target sourceBytes targetBytes).narrowing = true ↔
      targetBytes < sourceBytes := by
  by_cases same : source = target
  · unfold ofClasses
    rw [if_pos same]
    split
    · simp only [Bool.false_eq_true, false_iff]
      omega
    · split
      · simp only [Bool.false_eq_true, false_iff]
        omega
      · simp only [true_iff]
        omega
  · cases source <;> cases target <;> simp_all [ofClasses]

/-- Between integer types, narrowing is going to a narrower one. -/
theorem narrowing_ofPrimitives (source target : IntegerKind) :
    (ofPrimitives (.integer source) (.integer target)).narrowing = true ↔
      target.bits < source.bits := by
  have integer : ∀ kind : IntegerKind,
      (if kind.signed then NumericClass.signed else .unsigned) ≠ .float := by
    intro kind
    split <;> exact NumericClass.noConfusion
  by_cases same : source = target
  · subst same
    simp [ofPrimitives, exact]
  · have apart : PrimitiveKind.integer source ≠ .integer target := by simpa using same
    rw [ofPrimitives, if_neg apart]
    refine (narrowing_ofClasses (integer source) (integer target) _ _).trans ?_
    simp only [PrimitiveKind.rank, IntegerKind.bits]
    omega

end ParamRank

/-- An integer of one type becomes the one integer of another type that has the same residue modulo
two to the power of the other type's width; and the rank between the types is marked as narrowing
exactly if some integer does not come back. -/
theorem integers_converted_by_residue (source target : IntegerKind) :
    (∀ bits : BitVec source.bits, ∃ result : BitVec target.bits,
      convertNumeric (.integer source bits) (.integer target) = some (.integer target result) ∧
      target.Holds (target.toInt result) ∧
      ∀ n, target.Holds n →
        (n ≡ source.toInt bits [ZMOD 2 ^ target.bits] ↔ n = target.toInt result)) ∧
    ((rank (PrimitiveKind.integer source).typeHash
        (PrimitiveKind.integer target).typeHash).narrowing = true ↔
      ∃ bits : BitVec source.bits,
        source.thereAndBack target bits ≠ some (.integer source bits)) := by
  constructor
  · intro bits
    refine ⟨_, convertNumeric_integer source target bits, ?_, fun n own => ?_⟩
    · exact (target.holds_iff _).mpr ⟨_, rfl⟩
    · exact target.modEq_iff_eq_toInt (source.toInt bits) own
  · rw [rank_typeHash, ParamRank.narrowing_ofPrimitives]
    constructor
    · exact fun narrow => ⟨_, source.lost_of_lt target narrow⟩
    · rintro ⟨bits, lost⟩
      by_contra wide
      exact lost (source.recovered_of_le target (Nat.le_of_not_lt wide) bits)

end TypeCatalog
