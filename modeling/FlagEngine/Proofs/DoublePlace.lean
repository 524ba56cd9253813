import FlagEngine.Number.Text
import FlagEngine.Version
import Mathlib.Data.Nat.Digits.Defs
import Mathlib.Data.Rat.Lemmas
import Mathlib.Tactic.Common

/-! Doubles and their places. Bit patterns write every finite double in one way: as few powers of
two in the exponent as there can be, or a mantissa of full length. So two doubles at one place are
the same double, but for the two zeros; and texts written from the place alone, or from digits that
forget the sign of zero, are the same too. -/
namespace FlagEngine

theorem Extended.same_iff {p q : Extended} : p.same q = true ↔ p = q ∧ p ≠ .nan := by
  cases p <;> cases q <;> simp [same]

namespace Double

/-- A mantissa and an exponent as a bit pattern holds them. -/
structure Canonical (m : Nat) (e : Int) : Prop where
  low : -1074 ≤ e
  high : e ≤ 972
  fits : m < 2 ^ 53
  leading : e = -1074 ∨ 2 ^ 52 ≤ m

theorem canonical_of_ofBits {b : UInt64} {neg : Bool} {m : Nat} {e : Int}
    (h : ofBits b = .finite neg m e) : Canonical m e := by
  have hfield : (b &&& 0xfffffffffffff).toNat < 2 ^ 52 := by
    have hand : (b &&& 0xfffffffffffff).toNat ≤ (0xfffffffffffff : UInt64).toNat := by
      rw [UInt64.toNat_and]
      exact Nat.and_le_right
    exact Nat.lt_of_le_of_lt hand (by decide)
  have hexponent : ((b >>> 52) &&& 0x7ff).toNat ≤ 2047 := by
    rw [UInt64.toNat_and]
    exact Nat.and_le_right
  have hpow : twoTo 52 = 2 ^ 52 := rfl
  unfold ofBits at h
  dsimp only at h
  split at h
  · split at h <;> cases h
  · split at h
    · obtain ⟨-,rfl,rfl⟩ := Double.finite.inj h
      exact ⟨le_refl _,by omega,by omega,.inl rfl⟩
    · obtain ⟨-,rfl,rfl⟩ := Double.finite.inj h
      exact ⟨by omega,by omega,by omega,.inr (by omega)⟩

/-- The size of a finite double, counted in the least one above zero. -/
def units (m : Nat) (e : Int) : Nat := m * 2 ^ (e + 1074).toNat

def signed (neg : Bool) (n : Nat) : Int := if neg then -(n : Int) else n

theorem Canonical.exponent_le {m m' : Nat} {e e' : Int} (h : Canonical m e)
    (h' : Canonical m' e') (heq : units m e = units m' e') : e ≤ e' := by
  by_contra hlt
  have hm : 2 ^ 52 ≤ m := h.leading.resolve_left (by have := h'.low; omega)
  -- The larger exponent leaves room for a mantissa that is too long.
  obtain ⟨k,hk⟩ : ∃ k, (e + 1074).toNat = (e' + 1074).toNat + (k + 1) :=
    ⟨(e - e' - 1).toNat,by have := h'.low; omega⟩
  have hscaled : m * 2 ^ (k + 1) * 2 ^ (e' + 1074).toNat = m' * 2 ^ (e' + 1074).toNat := by
    rw [Nat.mul_assoc,← Nat.pow_add,Nat.add_comm (k + 1),← hk]
    exact heq
  have hm' : m * 2 ^ (k + 1) = m' := Nat.eq_of_mul_eq_mul_right (Nat.two_pow_pos _) hscaled
  have htwo : m * 2 ≤ m * 2 ^ (k + 1) :=
    Nat.mul_le_mul_left m (by rw [Nat.pow_succ]; have := Nat.two_pow_pos k; omega)
  have := h'.fits
  omega

theorem Canonical.unique {m m' : Nat} {e e' : Int} (h : Canonical m e) (h' : Canonical m' e')
    (heq : units m e = units m' e') : m = m' ∧ e = e' := by
  have he : e = e' := le_antisymm (h.exponent_le h' heq) (h'.exponent_le h heq.symm)
  subst he
  exact ⟨Nat.eq_of_mul_eq_mul_right (Nat.two_pow_pos _) heq,rfl⟩

/-- The place of a finite double, over any power of two that makes it integral. -/
theorem ofDouble_finite {m : Nat} {e : Int} {k : Nat} (he : -(k : Int) ≤ e) (neg : Bool) :
    Extended.ofDouble (.finite neg m e) =
      .fin (mkRat (signed neg (m * 2 ^ (e + k).toNat)) (2 ^ k)) := by
  have hpow : ∀ n, twoTo n = 2 ^ n := fun n => rfl
  have hsum : e.toNat + k = (e + k).toNat + (-e).toNat := by omega
  have hscaled : m * 2 ^ e.toNat * 2 ^ k = m * 2 ^ (e + k).toNat * 2 ^ (-e).toNat := by
    rw [Nat.mul_assoc,← Nat.pow_add,hsum,Nat.pow_add,Nat.mul_assoc]
  have hint : ((m * 2 ^ e.toNat : Nat) : Int) * (2 ^ k : Nat) =
      (m * 2 ^ (e + k).toNat : Nat) * (2 ^ (-e).toNat : Nat) := by
    exact_mod_cast hscaled
  unfold Extended.ofDouble fraction
  dsimp only
  rw [hpow,hpow,Extended.fin.injEq,
    Rat.mkRat_eq_iff (Nat.two_pow_pos _).ne' (Nat.two_pow_pos _).ne']
  cases neg
  · exact hint
  · simp only [signed,if_true,Int.neg_mul,hint]

theorem signed_of_mkRat {a b : Int} {k : Nat} (h : mkRat a (2 ^ k) = mkRat b (2 ^ k)) : a = b := by
  have hk : ((2 ^ k : Nat) : Int) ≠ 0 := by exact_mod_cast (Nat.two_pow_pos k).ne'
  exact Int.eq_of_mul_eq_mul_right hk
    ((Rat.mkRat_eq_iff (Nat.two_pow_pos _).ne' (Nat.two_pow_pos _).ne').mp h)

theorem signed_inj {neg neg' : Bool} {n n' : Nat} (h : signed neg n = signed neg' n') :
    n = n' ∧ (neg = neg' ∨ n = 0) := by
  cases neg <;> cases neg' <;> simp only [signed,if_true,Bool.false_eq_true,if_false] at h <;>
    simp <;> omega

theorem natAbs_signed (neg : Bool) (n : Nat) : (signed neg n).natAbs = n := by
  cases neg <;> simp [signed]

theorem Canonical.natAbs_lt {m b : Nat} {e : Int} (hc : Canonical m e) (hb : e ≤ b) {neg : Bool}
    {n : Int} (h : Extended.ofDouble (.finite neg m e) = .fin n) : n.natAbs < 2 ^ (53 + b) := by
  obtain ⟨k,hk⟩ : ∃ k : Nat, -(k : Int) ≤ e := ⟨(-e).toNat,by omega⟩
  have hscale : 0 < 2 ^ k := Nat.two_pow_pos k
  have hsize : n.natAbs * 2 ^ k = m * 2 ^ (e + k).toNat := by
    rw [ofDouble_finite hk,Extended.fin.injEq,← Rat.mkRat_one,
      Rat.mkRat_eq_iff hscale.ne' one_ne_zero] at h
    have habs := congrArg Int.natAbs h
    rw [Int.natAbs_mul,Int.natAbs_mul,natAbs_signed,Int.natAbs_natCast,Int.natAbs_natCast,
      Nat.mul_one] at habs
    exact habs.symm
  have hexponent : (e + k).toNat ≤ b + k := by omega
  have hbound : n.natAbs * 2 ^ k < 2 ^ 53 * 2 ^ (b + k) := hsize ▸
    Nat.mul_lt_mul_of_lt_of_le hc.fits (Nat.pow_le_pow_right (by decide) hexponent)
      (Nat.two_pow_pos _)
  rw [← Nat.pow_add,← Nat.add_assoc,Nat.pow_add 2 (53 + b)] at hbound
  exact Nat.lt_of_mul_lt_mul_right hbound

/-- Two doubles at one place are the same, unless both are zero. -/
theorem eq_or_zero_of_place {x y : Float} (h : (Extended.ofFloat x).same (Extended.ofFloat y)) :
    ofFloat x = ofFloat y ∨
      ∃ neg neg' e e', ofFloat x = .finite neg 0 e ∧ ofFloat y = .finite neg' 0 e' := by
  obtain ⟨hplace,hnan⟩ := Extended.same_iff.mp h
  unfold Extended.ofFloat at hplace hnan
  cases hx : ofFloat x with
  | nan => simp [hx,Extended.ofDouble] at hnan
  | infinite neg =>
    rw [hx] at hplace
    cases hy : ofFloat y with
    | nan => rw [hy] at hplace; cases neg <;> simp [Extended.ofDouble] at hplace
    | infinite neg' =>
      rw [hy] at hplace
      cases neg <;> cases neg' <;> simp [Extended.ofDouble] at hplace ⊢
    | finite neg' m' e' => rw [hy] at hplace; cases neg <;> simp [Extended.ofDouble] at hplace
  | finite neg m e =>
    have hc := canonical_of_ofBits hx
    rw [hx] at hplace
    cases hy : ofFloat y with
    | nan => simp [hy,Extended.ofDouble] at hplace
    | infinite neg' => rw [hy] at hplace; cases neg' <;> simp [Extended.ofDouble] at hplace
    | finite neg' m' e' =>
      have hc' := canonical_of_ofBits hy
      rw [hy,ofDouble_finite (k := 1074) hc.low,ofDouble_finite (k := 1074) hc'.low,
        Extended.fin.injEq] at hplace
      obtain ⟨hunits,hneg⟩ := signed_inj (signed_of_mkRat hplace)
      obtain ⟨rfl,rfl⟩ := hc.unique hc' hunits
      rcases hneg with rfl | hzero
      · exact .inl rfl
      · obtain rfl : m = 0 :=
          (Nat.mul_eq_zero.mp hzero).resolve_right (Nat.two_pow_pos _).ne'
        exact .inr ⟨neg,neg',e,e,rfl,rfl⟩

end Double

namespace Number

theorem plainText_of_place {x : Float} {n : Int} (h : Extended.ofFloat x = .ofInt n) :
    plainText x = intText n := by
  simp [plainText,h]

theorem not_isOverlong_of_lt {n : Int} (h : n.natAbs < 10 ^ maxDigits) : isOverlong n = false := by
  have hlength : (digits n.natAbs).length ≤ maxDigits := by
    rw [digits,String.length_ofList]
    exact Nat.toDigits_length 10 n.natAbs maxDigits (by decide) h
  simpa [isOverlong] using hlength

/-- An integer at the place of a double has few enough digits to be written. -/
theorem not_isOverlong_of_place {x : Float} {n : Int} (h : Extended.ofFloat x = .ofInt n) :
    isOverlong n = false := by
  unfold Extended.ofFloat Extended.ofInt at h
  cases hx : Double.ofFloat x with
  | nan => rw [hx] at h; cases h
  | infinite neg => rw [hx] at h; cases neg <;> cases h
  | finite neg m e =>
    have hc := Double.canonical_of_ofBits hx
    obtain ⟨b,hb,hdigits⟩ : ∃ b : Nat, e ≤ b ∧ 53 + b = maxDigits :=
      ⟨4247,by have := hc.high; omega,rfl⟩
    have hlt : n.natAbs < 2 ^ (53 + b) := hc.natAbs_lt hb (by rw [← hx]; exact h)
    rw [hdigits] at hlt
    exact not_isOverlong_of_lt (Nat.lt_of_lt_of_le hlt (Nat.pow_le_pow_left (by decide) _))

theorem written?_of_place {x : Float} {n : Int} (h : Extended.ofFloat x = .ofInt n) :
    written? n = some (plainText x) := by
  simp [written?,not_isOverlong_of_place h,plainText_of_place h]

theorem integer?_of_zero {x : Float} {neg : Bool} {e : Int}
    (h : Double.ofFloat x = .finite neg 0 e) : Extended.ofFloat x = .ofInt 0 := by
  cases neg <;> simp [Extended.ofFloat,h,Extended.ofDouble,Double.fraction,Extended.ofInt]

/-- The text of an identifier is known from the place. -/
theorem plainText_congr {x y : Float} (h : (Extended.ofFloat x).same (Extended.ofFloat y)) :
    plainText x = plainText y := by
  rcases Double.eq_or_zero_of_place h with heq | ⟨neg,neg',e,e',hx,hy⟩
  · simp only [plainText,floatText,Extended.ofFloat,heq]
  · rw [plainText_of_place (integer?_of_zero hx),plainText_of_place (integer?_of_zero hy)]

theorem floatText_of_zero {x : Float} {neg : Bool} {e : Int}
    (h : Double.ofFloat x = .finite neg 0 e) : floatText x = if neg then "-0.0" else "0.0" := by
  cases neg <;> simp [floatText,doubleText,h]

/-- A version has no sign: both zeros are one version. -/
theorem padded_floatText_congr {x y : Float}
    (h : (Extended.ofFloat x).same (Extended.ofFloat y)) :
    Version.padded (floatText x) = Version.padded (floatText y) := by
  have hzero : Version.padded "-0.0" = Version.padded "0.0" := by decide +kernel
  rcases Double.eq_or_zero_of_place h with heq | ⟨neg,neg',e,e',hx,hy⟩
  · simp only [floatText,heq]
  · rw [floatText_of_zero hx,floatText_of_zero hy]
    cases neg <;> cases neg' <;> simp [hzero]

end Number
end FlagEngine
