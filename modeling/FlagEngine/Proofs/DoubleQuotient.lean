import FlagEngine.Proofs.FractionOrder
import Mathlib.Algebra.Order.Field.Basic
import Mathlib.Algebra.Order.Field.Rat
import Mathlib.Data.Nat.Log
import Mathlib.Tactic.Positivity

/-! Quotients of small numbers as doubles. A natural number below 2^53 is a double, exactly, with a
mantissa of full length; so the quotient of a number by a larger one is rounded once, and stays
below one: it is further from one than rounding reaches. -/
namespace FlagEngine

open Float.Model Float.Model.UnpackedFloat

namespace Quotient

/-- A mantissa of full length, and an exponent that is in range with it. -/
structure Normal (m : Nat) (e : Int) : Prop where
  le : 2 ^ 52 ≤ m
  lt : m < 2 ^ 53
  low : -1074 ≤ e
  high : e ≤ 971

theorem Normal.pos {m : Nat} {e : Int} (h : Normal m e) : 0 < m :=
  Nat.lt_of_lt_of_le (Nat.two_pow_pos 52) h.le

theorem log2_eq {m k : Nat} (h : 2 ^ k ≤ m) (h' : m < 2 ^ (k + 1)) : m.log2 = k :=
  (Nat.log2_eq_iff (Nat.lt_of_lt_of_le (Nat.two_pow_pos k) h).ne').mpr ⟨h,h'⟩

theorem unpackSign_packComponents (s : Sign) (b : BitVec 11) (v : BitVec 52) :
    unpackSign (packComponents Format.binary64 s b v) = s.toBitVec := by
  ext i hi
  obtain rfl : i = 0 := by omega
  have happend : (s.toBitVec ++ b ++ v).getLsbD 63 = s.toBitVec[0] := by
    rw [BitVec.getLsbD_append,BitVec.getLsbD_append]
    rfl
  simp only [unpackSign,packComponents,Nat.reduceAdd,Nat.reduceSub,BitVec.cast_eq,
    BitVec.getElem_extract,Nat.add_zero]
  exact happend

/-- The leading bit is not written, and is there again when read. -/
theorem toNat_one_append {m : Nat} (h : 2 ^ 52 ≤ m) (h' : m < 2 ^ 53) :
    (1#1 ++ BitVec.ofNat 52 m).toNat = m := by
  have hmod : m % 2 ^ 52 = m - 2 ^ 52 := by omega
  rw [BitVec.toNat_append,BitVec.toNat_ofNat,BitVec.toNat_ofNat,hmod,
    ← Nat.shiftLeft_add_eq_or_of_lt (by omega),Nat.shiftLeft_eq]
  omega

/-- The bit pattern of a normal double gives it back. -/
theorem unpack_pack {m : Nat} {e : Int} (h : Normal m e) (s : Sign) :
    (Float.Model.pack (.finite s m e h.pos)).unpack = .finite s m e h.pos := by
  have hlog : m.log2 + 1 = Format.binary64.mantissaBits := by
    rw [log2_eq h.le h.lt]
    rfl
  have hbias : (Format.binary64.exponentBias : Int) = 1023 := by decide
  obtain ⟨b,hb⟩ : ∃ b : Nat, e + 1023 + 52 = b := ⟨(e + 1023 + 52).toNat,by have := h.low; omega⟩
  have hrange : 0 < b ∧ b < 2047 := by
    have := h.low
    have := h.high
    omega
  have hpack : UnpackedFloat.pack Format.binary64 (.finite s m e h.pos) =
      packComponents Format.binary64 s (BitVec.ofNat 11 b) (BitVec.ofNat 52 m) := by
    simp only [UnpackedFloat.pack,hbias]
    rw [show (e + 1023 + (52 : Nat)).toNat = b by omega,if_neg (by omega),if_pos hlog]
  have hexponent : (BitVec.ofNat 11 b).toNat = b := Nat.mod_eq_of_lt (by omega)
  have hinfinite : BitVec.ofNat 11 b ≠ -1#11 := fun heq => by
    have hb' : b = 2047 := hexponent.symm.trans (congrArg BitVec.toNat heq)
    omega
  have hsubnormal : BitVec.ofNat 11 b ≠ 0#11 := fun heq => by
    have hb' : b = 0 := hexponent.symm.trans (congrArg BitVec.toNat heq)
    omega
  have hsign : Sign.ofBitVec s.toBitVec = s := by cases s <;> rfl
  unfold Float.Model.unpack Float.Model.pack
  simp only [hpack,UnpackedFloat.unpack,unpackExponent_packComponents,
    unpackMantissa_packComponents,unpackSign_packComponents,if_neg hinfinite,if_neg hsubnormal,
    hsign,toNat_one_append h.le h.lt,hexponent,hbias,finite.injEq,true_and]
  omega

theorem mantissa_shiftRight (x : ExtendedMantissa) (k : Nat) :
    (x >>> k).mantissa = x.mantissa / 2 ^ k := by
  induction k with
  | zero => simp [HShiftRight.hShiftRight,Nat.repeat]
  | succ k ih =>
    have hstep : x >>> (k + 1) = (x >>> k).shiftRightOne := rfl
    rw [hstep,ExtendedMantissa.shiftRightOne,ih,Nat.div_div_eq_div_mul,← Nat.pow_succ]

/-- Nothing is lost of a multiple of the power of two shifted out. -/
theorem shiftRight_mul_two_pow (m k : Nat) :
    (⟨m * 2 ^ k,false,false⟩ : ExtendedMantissa) >>> k = ⟨m,false,false⟩ := by
  induction k generalizing m with
  | zero => simp [HShiftRight.hShiftRight,Nat.repeat]
  | succ k ih =>
    have hstep : (⟨m * 2 ^ (k + 1),false,false⟩ : ExtendedMantissa) >>> (k + 1) =
        ((⟨m * 2 * 2 ^ k,false,false⟩ : ExtendedMantissa) >>> k).shiftRightOne := by
      rw [Nat.pow_succ,Nat.mul_comm (2 ^ k),← Nat.mul_assoc]
      rfl
    rw [hstep,ih]
    simp [ExtendedMantissa.shiftRightOne]

theorem le_roundedMantissa (x : ExtendedMantissa) : x.mantissa ≤ x.roundedMantissa := by
  rcases x with ⟨m,_ | _,_ | _⟩ <;>
    simp [ExtendedMantissa.roundedMantissa,ExtendedMantissa.accuracy,Accuracy.roundToNearestEven]

theorem roundedMantissa_le (x : ExtendedMantissa) : x.roundedMantissa ≤ x.mantissa + 1 := by
  rcases x with ⟨m,_ | _,_ | _⟩ <;>
    simp [ExtendedMantissa.roundedMantissa,ExtendedMantissa.accuracy,Accuracy.roundToNearestEven]
  omega

/-- Rounding shifts out what a mantissa has beyond its full length. -/
theorem shiftToTargetExponent_eq {m k : Nat} {e : Int} (hm : m.log2 = 52 + k) (he : -1074 ≤ e + k)
    (accuracy : Accuracy) :
    shiftToTargetExponent Format.binary64 m e accuracy =
      (ExtendedMantissa.ofMantissaAndAccuracy m accuracy >>> k,e + k) := by
  have htarget : Format.binary64.targetExponent (totalExponent m e) = e + k := by
    simp only [Format.targetExponent,totalExponent,Format.mantissaBits,Format.minExponent,hm]
    omega
  have hshift : (e + k - e).toNat = k := by omega
  simp only [shiftToTargetExponent,shiftToExponent,htarget,hshift]

theorem mantissa_ofMantissaAndAccuracy (m : Nat) (accuracy : Accuracy) :
    (ExtendedMantissa.ofMantissaAndAccuracy m accuracy).mantissa = m := by
  rcases accuracy with _ | (_ | _ | _) <;> rfl

theorem Normal.log2_mul {m k : Nat} {e : Int} (h : Normal m e) : (m * 2 ^ k).log2 = 52 + k := by
  have hlow := Nat.mul_le_mul_right (2 ^ k) h.le
  have hhigh := Nat.mul_lt_mul_of_pos_right h.lt (Nat.two_pow_pos k)
  rw [← Nat.pow_add] at hlow hhigh
  exact log2_eq hlow (by rwa [Nat.add_right_comm])

/-- What rounding leaves is shifted once more, when it has come to more than a full length. -/
theorem roundWithAccuracy_eq {q m k : Nat} {e f : Int} {accuracy : Accuracy} {x : ExtendedMantissa}
    (hx : shiftToTargetExponent Format.binary64 q e accuracy = (x,f))
    (hround : x.roundedMantissa = m * 2 ^ k) (h : Normal m (f + k)) (s : Sign) :
    roundWithAccuracy Format.binary64 s q e accuracy = .finite s m (f + k) h.pos := by
  have hagain := shiftToTargetExponent_eq (h.log2_mul (k := k)) h.low .exact
  rw [ExtendedMantissa.ofMantissaAndAccuracy,shiftRight_mul_two_pow] at hagain
  simp only [roundWithAccuracy,hx,hround,hagain]
  rw [dif_neg h.pos.ne']

/-- A number that needs no more than a full length is not changed by rounding. -/
theorem roundWithAccuracy_exact {m k : Nat} {e : Int} (h : Normal m (e + k)) (s : Sign) :
    roundWithAccuracy Format.binary64 s (m * 2 ^ k) e .exact = .finite s m (e + k) h.pos := by
  have hx := shiftToTargetExponent_eq (h.log2_mul (k := k)) h.low .exact
  rw [ExtendedMantissa.ofMantissaAndAccuracy,shiftRight_mul_two_pow] at hx
  have hround : (⟨m,false,false⟩ : ExtendedMantissa).roundedMantissa = m * 2 ^ 0 := by
    rw [Nat.pow_zero,Nat.mul_one]
    rfl
  have h0 : Normal m (e + k + (0 : Nat)) := by simpa using h
  have heq := roundWithAccuracy_eq hx hround h0 s
  simpa using heq

/-- Rounding keeps the exponent, unless the mantissa reaches the next power of two. -/
theorem exists_roundWithAccuracy {q l : Nat} {e : Int} (hq : q.log2 = 52 + l) (hlow : -1074 ≤ e + l)
    (hhigh : e + l < 971) (accuracy : Accuracy) (s : Sign) :
    ∃ m f, ∃ h : Normal m f, roundWithAccuracy Format.binary64 s q e accuracy =
      .finite s m f h.pos ∧ (f = e + l ∨ f = e + l + 1 ∧ 2 ^ 53 ≤ q / 2 ^ l + 1) := by
  have hx := shiftToTargetExponent_eq hq hlow accuracy
  have hmantissa :
      (ExtendedMantissa.ofMantissaAndAccuracy q accuracy >>> l).mantissa = q / 2 ^ l := by
    rw [mantissa_shiftRight,mantissa_ofMantissaAndAccuracy]
  generalize ExtendedMantissa.ofMantissaAndAccuracy q accuracy >>> l = x at hx hmantissa
  have hne : q ≠ 0 := by
    rintro rfl
    rw [Nat.log2_zero] at hq
    omega
  obtain ⟨hle,hlt⟩ := (Nat.log2_eq_iff hne).mp hq
  have hquot : 2 ^ 52 ≤ q / 2 ^ l ∧ q / 2 ^ l < 2 ^ 53 := by
    rw [Nat.le_div_iff_mul_le (Nat.two_pow_pos l),Nat.div_lt_iff_lt_mul (Nat.two_pow_pos l),
      ← Nat.pow_add,← Nat.pow_add]
    exact ⟨hle,by rwa [show 53 + l = 52 + l + 1 by omega]⟩
  have hx' := le_roundedMantissa x
  have hx'' := roundedMantissa_le x
  rw [hmantissa] at hx' hx''
  by_cases hcarry : x.roundedMantissa < 2 ^ 53
  · have h : Normal x.roundedMantissa (e + l + (0 : Nat)) :=
      ⟨by omega,hcarry,by omega,by omega⟩
    exact ⟨_,_,h,roundWithAccuracy_eq hx (by omega) h s,.inl (by omega)⟩
  · have h : Normal (2 ^ 52) (e + l + (1 : Nat)) := ⟨by omega,by omega,by omega,by omega⟩
    exact ⟨_,_,h,roundWithAccuracy_eq hx (by omega) h s,.inr ⟨by omega,by omega⟩⟩

theorem exists_normal {n : Nat} (hn : 0 < n) (hn' : n < 2 ^ 53) :
    ∃ k, n.log2 + k = 52 ∧ Normal (n * 2 ^ k) (-k) := by
  obtain ⟨hle,hlt⟩ := (Nat.log2_eq_iff hn.ne').mp rfl
  have hlog : n.log2 ≤ 52 := by
    have := (Nat.log2_lt hn.ne').mpr hn'
    omega
  obtain ⟨k,hk⟩ := Nat.exists_eq_add_of_le hlog
  have hlow := Nat.mul_le_mul_right (2 ^ k) hle
  have hhigh := Nat.mul_lt_mul_of_pos_right hlt (Nat.two_pow_pos k)
  rw [← Nat.pow_add,← hk] at hlow
  rw [← Nat.pow_add,show n.log2 + 1 + k = 53 by omega] at hhigh
  exact ⟨k,hk.symm,hlow,hhigh,by omega,by omega⟩

theorem round_eq {n k : Nat} (hk : n.log2 + k = 52) (h : Normal (n * 2 ^ k) (-k)) :
    UnpackedFloat.round Format.binary64 .positive n 0 =
      .finite .positive (n * 2 ^ k) (-k) h.pos := by
  have htarget : Format.binary64.targetExponent (totalExponent n 0) = -k := by
    simp only [Format.targetExponent,totalExponent,Format.mantissaBits,Format.minExponent]
    omega
  have hdecrease : decreaseExponent n 0 (-k : Int) = (n * 2 ^ k,-(k : Int)) := by
    simp [decreaseExponent,Nat.shiftLeft_eq]
  have h0 : Normal (n * 2 ^ k) (-k + (0 : Nat)) := by simpa using h
  have hexact := roundWithAccuracy_exact h0 .positive
  simp only [UnpackedFloat.round,htarget,hdecrease]
  simpa using hexact

/-- Multiplying by one changes nothing. -/
theorem mul_one {m : Nat} {e : Int} (h : Normal m e) :
    UnpackedFloat.mul Format.binary64 (.finite .positive m e h.pos)
      (.finite .positive (2 ^ 52) (-52) (Nat.two_pow_pos 52)) = .finite .positive m e h.pos := by
  have heq : e + -52 + (52 : Nat) = e := by omega
  have h52 : Normal m (e + -52 + (52 : Nat)) := by rwa [heq]
  have hexact := roundWithAccuracy_exact h52 .positive
  simp only [heq] at hexact
  exact hexact

/-- A natural number below 2^53 is a double. -/
theorem unpack_ofNat {n k : Nat} (hk : n.log2 + k = 52) (h : Normal (n * 2 ^ k) (-k)) :
    (Float.ofNat n).toModel.unpack = .finite .positive (n * 2 ^ k) (-k) h.pos := by
  have hn : 0 < n := Nat.pos_of_mul_pos_right h.pos
  have hlt : n < 2 ^ 53 := Nat.lt_of_le_of_lt (Nat.le_mul_of_pos_right n (Nat.two_pow_pos k)) h.lt
  have hone : (Float.ofBits 0x3ff0000000000000).toModel.unpack =
      .finite .positive (2 ^ 52) (-52) (Nat.two_pow_pos 52) := rfl
  have hword : (UInt64.toFloat n.toUInt64).toModel.unpack =
      .finite .positive (n * 2 ^ k) (-k) h.pos := by
    have hmod : n.toUInt64.toNat = n := Nat.mod_eq_of_lt (by omega)
    show (Float.Model.pack (UnpackedFloat.normalize Format.binary64 (n.toUInt64.toNat : Int) 0
      .positive)).unpack = _
    rw [hmod,UnpackedFloat.normalize,Int.compare_eq_gt.mpr (by omega)]
    simp only [Int.toNat_natCast,round_eq hk h]
    exact unpack_pack h .positive
  have hfloat : Float.ofNat n = n.toUInt64.toFloat * Float.ofBits 0x3ff0000000000000 := by
    show Float.ofScientific n false 0 = _
    rw [Float.ofScientific,dif_pos ⟨hlt,by omega⟩]
    rfl
  rw [hfloat]
  show (Float.Model.pack (UnpackedFloat.mul Format.binary64
    (UInt64.toFloat n.toUInt64).toModel.unpack (Float.ofBits 0x3ff0000000000000).toModel.unpack)).unpack = _
  rw [hword,hone,mul_one h]
  exact unpack_pack h .positive

/-- The quotient of mantissas of full length has one too, and some more. -/
theorem divCore_eq {m m' : Nat} {e e' : Int} (h : Normal m e) (h' : Normal m' e')
    (hlow : -1021 ≤ e - e') : divCore Format.binary64 m e m' e' =
      (m * 2 ^ 53 / m',e - e' - 53,accuracyOfFraction (m * 2 ^ 53 % m') m') := by
  have htarget : min (e - e') (Format.binary64.targetExponent
      (totalExponent m e - totalExponent m' e')) = e - e' - 53 := by
    simp only [Format.targetExponent,totalExponent,Format.mantissaBits,Format.minExponent,
      log2_eq h.le h.lt,log2_eq h'.le h'.lt]
    omega
  have hshift : (e - e' - (e - e' - 53)).toNat = 53 := by omega
  simp only [divCore,htarget,hshift,Nat.shiftLeft_eq]

/-- A quotient below one is further from it than rounding reaches. -/
theorem quotient_le {a b : Nat} (h : a < b) (hb : b < 2 ^ 53) : a * 2 ^ 53 / b + 1 < 2 ^ 53 := by
  have hlt : a * 2 ^ 53 / b < 2 ^ 53 - 1 := by
    rw [Nat.div_lt_iff_lt_mul (by omega)]
    omega
  omega

/-- A quotient below one has an exponent below that of one. -/
theorem exists_unpack_div {a b : Nat} (ha : 0 < a) (h : a < b) (hb : b < 2 ^ 53) :
    ∃ m e, ∃ hm : 0 < m, e ≤ -53 ∧
      (Float.ofNat a / Float.ofNat b).toModel.unpack = .finite .positive m e hm := by
  obtain ⟨i,hi,hna⟩ := exists_normal ha (h.trans hb)
  obtain ⟨j,hj,hnb⟩ := exists_normal (ha.trans h) hb
  have hlog : a.log2 ≤ b.log2 := (Nat.le_log2 (by omega)).mpr ((Nat.log2_self_le ha.ne').trans h.le)
  obtain ⟨d,rfl⟩ : ∃ d, i = j + d := ⟨i - j,by omega⟩
  generalize hq : a * 2 ^ (j + d) * 2 ^ 53 / (b * 2 ^ j) = q
  have hshifted : q / 2 ^ d = a * 2 ^ 53 / b := by
    rw [← hq,Nat.div_div_eq_div_mul,Nat.pow_add]
    have hnum : a * (2 ^ j * 2 ^ d) * 2 ^ 53 = a * 2 ^ 53 * (2 ^ j * 2 ^ d) :=
      Nat.mul_right_comm _ _ _
    rw [hnum,Nat.mul_assoc b,Nat.mul_div_mul_right _ _ (by positivity)]
  have hquotient := quotient_le h hb
  have hlow : 2 ^ 52 ≤ q := by
    rw [← hq,Nat.le_div_iff_mul_le hnb.pos]
    exact Nat.mul_le_mul hna.le hnb.lt.le
  have hhigh : q < 2 ^ (53 + d) := by
    rw [Nat.pow_add,← Nat.div_lt_iff_lt_mul (Nat.two_pow_pos d),hshifted]
    omega
  have hqlog : 52 ≤ q.log2 := (Nat.le_log2 (by omega)).mpr hlow
  have hqlog' : q.log2 < 53 + d := (Nat.log2_lt (by omega)).mpr hhigh
  obtain ⟨l,hl⟩ := Nat.exists_eq_add_of_le hqlog
  have hcore := divCore_eq hna hnb (by omega)
  rw [hq] at hcore
  generalize accuracyOfFraction _ _ = accuracy at hcore
  obtain ⟨m,f,hm,hround,hf⟩ :=
    exists_roundWithAccuracy (e := -((j + d : Nat) : Int) - -(j : Int) - 53) hl (by omega)
      (by omega) accuracy .positive
  have hbelow : f ≤ -53 := by
    rcases hf with hf | ⟨hf,hcarry⟩
    · omega
    · -- At the exponent below that of one the mantissa does not carry.
      have hne : l ≠ d := by
        rintro rfl
        omega
      omega
  refine ⟨m,f,hm.pos,hbelow,?_⟩
  show (Float.Model.pack (UnpackedFloat.div Format.binary64 (Float.ofNat a).toModel.unpack
    (Float.ofNat b).toModel.unpack)).unpack = _
  rw [unpack_ofNat hi hna,unpack_ofNat hj hnb]
  simp only [UnpackedFloat.div,hcore]
  show (Float.Model.pack (roundWithAccuracy Format.binary64 .positive q _ accuracy)).unpack = _
  rw [hround]
  exact unpack_pack hm .positive

/-- Zero by any number that is a double, not zero, is zero. -/
theorem unpack_zero_div {b : Nat} (hb : 0 < b) (hb' : b < 2 ^ 53) :
    (Float.ofNat 0 / Float.ofNat b).toModel.unpack = .zero .positive := by
  obtain ⟨j,hj,hnb⟩ := exists_normal hb hb'
  show (Float.Model.pack (UnpackedFloat.div Format.binary64 (Float.ofNat 0).toModel.unpack
    (Float.ofNat b).toModel.unpack)).unpack = _
  have hzero : (Float.ofNat 0).toModel.unpack = .zero .positive := rfl
  rw [hzero,unpack_ofNat hj hnb]
  simp only [UnpackedFloat.div]
  rfl

/-- Where the quotient of a number by a larger one lies. -/
theorem exists_ofFloat?_div {a b : Nat} (h : a < b) (hb : b < 2 ^ 53) :
    ∃ p, Rank.ofFloat? (Float.ofNat a / Float.ofNat b) = some p ∧
      Rank.mk 0 0 0 ≤ p ∧ p < Rank.mk 1 (-52) (2 ^ 52) := by
  rcases Nat.eq_zero_or_pos a with rfl | ha
  · refine ⟨Rank.mk 0 0 0,?_,le_refl _,by decide⟩
    rw [Rank.ofFloat?,unpack_zero_div h hb]
    rfl
  · obtain ⟨m,e,hm,he,hunpack⟩ := exists_unpack_div ha h hb
    refine ⟨Rank.mk 1 e m,?_,?_,?_⟩
    · rw [Rank.ofFloat?,hunpack]
      rfl
    · exact le_of_lt (Prod.Lex.toLex_lt_toLex.mpr (.inl Int.zero_lt_one))
    · refine Prod.Lex.toLex_lt_toLex.mpr (.inr ⟨rfl,Prod.Lex.toLex_lt_toLex.mpr (.inl ?_)⟩)
      show e < -52
      omega

end Quotient

/-- Quotients of small numbers that lie in the unit interval, one excluded, where they should. -/
class Fraction.Proper (ν : Type) [Fraction ν] : Prop where
  zero_le_ofRatio {a b : Nat} : a < b → b < 2 ^ 53 → (zero : ν) ≤ ofRatio a b
  ofRatio_lt_one {a b : Nat} : a < b → b < 2 ^ 53 → (ofRatio a b : ν) < one

instance : Fraction.Proper Rat where
  zero_le_ofRatio _ _ := Rat.mkRat_nonneg (Int.natCast_nonneg _) _
  ofRatio_lt_one {a b} h _ := by
    have hb : (0 : ℚ) < b := by exact_mod_cast Nat.zero_lt_of_lt h
    show mkRat a b < 1
    rw [Rat.mkRat_eq_div,div_lt_one hb]
    exact_mod_cast h

instance : Fraction.Proper Float where
  zero_le_ofRatio h hb := by
    obtain ⟨p,hp,hlow,-⟩ := Quotient.exists_ofFloat?_div h hb
    exact (Rank.le_iff _ _).mpr ⟨Rank.mk 0 0 0,rfl,p,hp,hlow⟩
  ofRatio_lt_one h hb := by
    obtain ⟨p,hp,-,hhigh⟩ := Quotient.exists_ofFloat?_div h hb
    exact (Rank.lt_iff _ _).mpr ⟨p,hp,Rank.mk 1 (-52) (2 ^ 52),rfl,hhigh⟩

end FlagEngine
