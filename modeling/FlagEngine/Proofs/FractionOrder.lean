import FlagEngine.Number.Fraction
import Mathlib

/-! The order of the numbers that bucketing compares. Doubles that are numbers lie on a line, which
`Rank` makes a linear order; what is not a number compares with nothing. So doubles need not be
comparable, but no double is below a second that is not above a third while reaching the third. -/
namespace FlagEngine

open Float.Model

/-- The tier of a double (infinite or finite, its sign), then exponent, then mantissa. -/
abbrev Rank := ℤ ×ₗ ℤ ×ₗ ℤ

def Rank.mk (tier exponent mantissa : ℤ) : Rank := toLex (tier, toLex (exponent, mantissa))

namespace Rank

theorem compare_mk (t e m t' e' m' : ℤ) :
    compare (mk t e m) (mk t' e' m') =
      (compare t t').then ((compare e e').then (compare m m')) := by
  simp [mk,Prod.Lex.compare_def,compareLex,compareOn]

theorem compare_natCast (m n : ℕ) : compare (m : ℤ) (n : ℤ) = compare m n := by
  rcases lt_trichotomy m n with h | rfl | h
  · rw [compare_lt_iff_lt.mpr h,compare_lt_iff_lt.mpr (Int.ofNat_lt.mpr h)]
  · simp
  · rw [compare_gt_iff_gt.mpr h,compare_gt_iff_gt.mpr (Int.ofNat_lt.mpr h)]

theorem isLE_compare (p q : Rank) : (compare p q).isLE = true ↔ p ≤ q := by
  rw [Ordering.isLE_iff_ne_gt]
  exact compare_le_iff_le

theorem compare_neg (x y : ℤ) : compare (-x) (-y) = (compare x y).swap := by
  rcases lt_trichotomy x y with h | rfl | h
  · rw [compare_lt_iff_lt.mpr h,compare_gt_iff_gt.mpr (neg_lt_neg h)]; rfl
  · simp
  · rw [compare_gt_iff_gt.mpr h,compare_lt_iff_lt.mpr (neg_lt_neg h)]; rfl

/-- Where an unpacked double lies. Both zeros lie at one place. -/
def of? : UnpackedFloat → Option Rank
  | .notANumber => none
  | .infinity .negative => some (mk (-2) 0 0)
  | .finite .negative m e _ => some (mk (-1) (-e) (-m))
  | .zero _ => some (mk 0 0 0)
  | .finite .positive m e _ => some (mk 1 e m)
  | .infinity .positive => some (mk 2 0 0)

theorem compare_of? (a b : UnpackedFloat) :
    a.compare b = (of? a).bind fun p => (of? b).map fun q => compare p q := by
  rcases a with (_ | _) | _ | _ | ⟨_ | _,m,e,hm⟩ <;>
    rcases b with (_ | _) | _ | _ | ⟨_ | _,m',e',hm'⟩
  case finite.negative.finite.negative =>
    simp [UnpackedFloat.compare,of?,compare_mk,compare_natCast,compare_neg,Ordering.swap_then]
  case finite.positive.finite.positive =>
    simp [UnpackedFloat.compare,of?,compare_mk,compare_natCast]
  all_goals rfl

/-- Where a double lies, nowhere if it is not a number. -/
def ofFloat? (x : Float) : Option Rank := of? x.toModel.unpack

theorem lt_iff (x y : Float) : x < y ↔ ∃ p ∈ ofFloat? x, ∃ q ∈ ofFloat? y, p < q := by
  have h : x < y ↔ (x.toModel.unpack.compare y.toModel.unpack == some .lt) = true := by
    exact decide_eq_true_iff
  rw [h,compare_of?]
  unfold ofFloat?
  cases of? x.toModel.unpack <;> cases of? y.toModel.unpack <;> simp [compare_lt_iff_lt]

theorem le_iff (x y : Float) : x ≤ y ↔ ∃ p ∈ ofFloat? x, ∃ q ∈ ofFloat? y, p ≤ q := by
  have h : x ≤ y ↔ ((x.toModel.unpack.compare y.toModel.unpack).any (·.isLE)) = true := by
    exact decide_eq_true_iff
  rw [h,compare_of?]
  unfold ofFloat?
  cases of? x.toModel.unpack <;> cases of? y.toModel.unpack <;> simp [isLE_compare]

end Rank

/-- Comparisons that are never contradictory, though not all numbers need be comparable. -/
class Fraction.Coherent (ν : Type) [Fraction ν] : Prop where
  not_le_of_lt_of_le {x y z : ν} : x < y → y ≤ z → ¬ z ≤ x

instance : Fraction.Coherent Rat where
  not_le_of_lt_of_le {x y z : Rat} (h : x < y) (h' : y ≤ z) := not_le.mpr (h.trans_le h')

instance : Fraction.Coherent Float where
  not_le_of_lt_of_le := by
    intro x y z h h' h''
    obtain ⟨p,hp,q,hq,hpq⟩ := (Rank.lt_iff x y).mp h
    obtain ⟨q',hq',r,hr,hqr⟩ := (Rank.le_iff y z).mp h'
    obtain ⟨r',hr',p',hp',hrp⟩ := (Rank.le_iff z x).mp h''
    obtain rfl := Option.mem_unique hq hq'
    obtain rfl := Option.mem_unique hr hr'
    obtain rfl := Option.mem_unique hp hp'
    exact absurd (hpq.trans_le (hqr.trans hrp)) (lt_irrefl _)

end FlagEngine
