import FlagEngine.Proofs.DoublePlace
import Mathlib

/-! The exact values of numbers. A double is unpacked by the model of doubles that its own
operations are defined by, and has a rational value or lies at an end of the line, unless it is not
a number. The places that numbers are compared by are these values, so that nothing is rounded where
an integer meets a double. -/
namespace FlagEngine

open Float.Model Float.Model.UnpackedFloat

namespace Double

/-- An unpacked double, in the terms of `Double`. -/
def ofUnpacked : UnpackedFloat → Double
  | .notANumber => .nan
  | .infinity s => .infinite (s == .negative)
  | .zero s => .finite (s == .negative) 0 (-1074)
  | .finite s m e _ => .finite (s == .negative) m e

section Fields

variable (b : UInt64)

theorem toNat_unpackExponent :
    (@unpackExponent Format.binary64 b.toBitVec).toNat =
      ((b >>> 52) &&& 0x7ff).toNat := by
  simp only [unpackExponent,BitVec.toNat_cast,BitVec.extractLsb_toNat,UInt64.toNat_toBitVec,
    UInt64.toNat_and,UInt64.toNat_shiftRight]
  exact (Nat.and_two_pow_sub_one_eq_mod _ 11).symm

theorem toNat_unpackMantissa :
    (@unpackMantissa Format.binary64 b.toBitVec).toNat =
      (b &&& 0xfffffffffffff).toNat := by
  simp only [unpackMantissa,BitVec.toNat_cast,BitVec.extractLsb_toNat,UInt64.toNat_toBitVec,
    UInt64.toNat_and,Nat.shiftRight_zero]
  exact (Nat.and_two_pow_sub_one_eq_mod _ 52).symm

theorem unpackSign_eq :
    (Sign.ofBitVec (@unpackSign Format.binary64 b.toBitVec) == .negative) =
      (b >>> 63 == 1) := by
  have hbit : b.toNat >>> 63 < 2 := by
    have := b.toNat_lt
    rw [Nat.shiftRight_eq_div_pow]
    omega
  rw [Bool.eq_iff_iff,beq_iff_eq,beq_iff_eq]
  simp [unpackSign,BitVec.extractLsb,BitVec.extractLsb',Sign.ofBitVec,← UInt64.toNat_inj,
    ← BitVec.toNat_inj]
  omega

theorem toNat_one_append {w : Nat} (v : BitVec w) : (1#1 ++ v).toNat = v.toNat + 2 ^ w := by
  rw [BitVec.toNat_append,← Nat.shiftLeft_add_eq_or_of_lt v.isLt,Nat.add_comm]
  simp [Nat.shiftLeft_eq]

/-- The parts of a bit pattern are read off as they are unpacked. -/
theorem ofBits_eq :
    ofBits b = ofUnpacked (UnpackedFloat.unpack Format.binary64 b.toBitVec) := by
  have hbias : (Format.binary64.exponentBias : Int) = 1023 := by decide
  have hall : ∀ e : BitVec 11, e = -1#_ ↔ e.toNat = 0x7ff := by
    intro e
    rw [← BitVec.toNat_inj]
    rfl
  have hnone : ∀ {w : Nat} (v : BitVec w), v = 0#_ ↔ v.toNat = 0 := by
    intro w v
    rw [← BitVec.toNat_inj,BitVec.toNat_ofNat,Nat.zero_mod]
  unfold ofBits UnpackedFloat.unpack
  dsimp only
  rw [← toNat_unpackMantissa,← toNat_unpackExponent,← unpackSign_eq,hbias]
  generalize @unpackExponent Format.binary64 b.toBitVec = e
  generalize Sign.ofBitVec (@unpackSign Format.binary64 b.toBitVec) = s
  have hzero := hnone (@unpackMantissa Format.binary64 b.toBitVec)
  by_cases hinfinite : e.toNat = 0x7ff
  · rw [if_pos hinfinite,if_pos ((hall e).mpr hinfinite)]
    by_cases h : (@unpackMantissa Format.binary64 b.toBitVec).toNat = 0
    · rw [if_pos h,if_pos (hzero.mpr h),ofUnpacked]
    · rw [if_neg h,if_neg (mt hzero.mp h),ofUnpacked]
  rw [if_neg hinfinite,if_neg (mt (hall e).mp hinfinite)]
  by_cases hsubnormal : e.toNat = 0
  · rw [if_pos hsubnormal,if_pos ((hnone e).mpr hsubnormal)]
    by_cases h : (@unpackMantissa Format.binary64 b.toBitVec).toNat = 0
    · rw [dif_pos (hzero.mpr h),ofUnpacked,h]
    · rw [dif_neg (mt hzero.mp h),ofUnpacked,hsubnormal]
      rfl
  · rw [if_neg hsubnormal,if_neg (mt (hnone e).mp hsubnormal),ofUnpacked,toNat_one_append]
    rfl

end Fields

theorem ofFloat_eq (x : Float) : ofFloat x = ofUnpacked x.toModel.unpack := ofBits_eq x.toBits

theorem ofFloat_eq_nan_iff (x : Float) : ofFloat x = .nan ↔ x.isNaN = true := by
  show _ ↔ x.toModel.unpack.isNaN = true
  rw [ofFloat_eq]
  cases x.toModel.unpack <;> simp [ofUnpacked,UnpackedFloat.isNaN]

end Double

/-- The rational line with its two ends. -/
abbrev Line := WithBotTop ℚ

namespace Line

/-- The value of an unpacked double, if it is a number. -/
def of? : UnpackedFloat → Option Line
  | .notANumber => none
  | .infinity .negative => some ⊥
  | .infinity .positive => some ⊤
  | .zero _ => some (0 : ℚ)
  | .finite .negative m e _ => some (-(m * 2 ^ e) : ℚ)
  | .finite .positive m e _ => some (m * 2 ^ e : ℚ)

/-- The exact value of a double. -/
def ofFloat? (x : Float) : Option Line := of? x.toModel.unpack

end Line

namespace Extended

theorem ofFloat_eq_nan_iff (x : Float) : ofFloat x = .nan ↔ x.isNaN = true := by
  rw [← Double.ofFloat_eq_nan_iff,ofFloat]
  rcases Double.ofFloat x with _ | (_ | _) | ⟨neg,m,e⟩ <;> simp [ofDouble]

/-- A place on the line of values. -/
def line? : Extended → Option Line
  | .nan => none
  | .bottom => some ⊥
  | .fin q => some q
  | .top => some ⊤

theorem same_iff_line? {p q : Extended} :
    p.same q = true ↔ ∃ a, p.line? = some a ∧ q.line? = some a := by
  have hbot : ∀ r : ℚ, (⊥ : Line) ≠ r := fun r => (WithBotTop.coe_ne_bot r).symm
  have htop : ∀ r : ℚ, (⊤ : Line) ≠ r := fun r => (WithBotTop.coe_ne_top r).symm
  have hcoe : ∀ r s : ℚ, (s : Line) = r ↔ r = s := fun r s =>
    WithBotTop.coe_injective.eq_iff.trans eq_comm
  cases p <;> cases q <;> simp [same,line?,hbot,htop,hcoe]

theorem less_iff_line? {p q : Extended} :
    p.less q = true ↔ ∃ a b, p.line? = some a ∧ q.line? = some b ∧ a < b := by
  cases p <;> cases q <;> simp [less,line?,bot_lt_iff_ne_bot,lt_top_iff_ne_top]

theorem mkRat_fraction (n e : Int) :
    mkRat (n * twoTo e.toNat) (twoTo (-e).toNat) = (n : ℚ) * 2 ^ e := by
  have hpow : ∀ k, twoTo k = 2 ^ k := fun k => rfl
  rw [Rat.mkRat_eq_div,hpow,hpow]
  push_cast
  cases e with
  | ofNat k => simp
  | negSucc k => simp [zpow_negSucc,div_eq_mul_inv]

theorem line?_ofDouble_finite (neg : Bool) (m : Nat) (e : Int) :
    (ofDouble (.finite neg m e)).line? =
      some ((if neg then -(m * 2 ^ e) else m * 2 ^ e : ℚ) : Line) := by
  simp only [ofDouble,Double.fraction,line?,Int.natCast_mul]
  cases neg with
  | false =>
    rw [if_neg Bool.false_ne_true,if_neg Bool.false_ne_true,mkRat_fraction,Int.cast_natCast]
  | true =>
    rw [if_pos rfl,if_pos rfl,← Int.neg_mul,mkRat_fraction,Int.cast_neg,Int.cast_natCast,neg_mul]

theorem line?_ofFloat (x : Float) : (ofFloat x).line? = Line.ofFloat? x := by
  rw [ofFloat,Double.ofFloat_eq,Line.ofFloat?]
  rcases x.toModel.unpack with (_ | _) | _ | (_ | _) | ⟨_ | _,m,e,hm⟩
  case finite.negative => exact line?_ofDouble_finite true m e
  case finite.positive => exact line?_ofDouble_finite false m e
  case zero.negative => exact (line?_ofDouble_finite true 0 (-1074)).trans (by simp [Line.of?])
  case zero.positive => exact (line?_ofDouble_finite false 0 (-1074)).trans (by simp [Line.of?])
  all_goals rfl

end Extended
end FlagEngine
