import FlagEngine.Cipher.Field
import Mathlib.Data.Nat.Bitwise

/-! Laws of the field of bytes. Products are followed as products of numbers, on which a law that
is about one byte is checked byte by byte. What the block cipher rests on is that the inverse is an
involution, that the substitution is undone, and that products distribute over sums. -/
namespace FlagEngine.Cipher

/-- What a test finds of all numbers of eight bits holds of all bytes. -/
theorem forall_byte {p : UInt8 → Bool} (h : (List.range 256).all fun n => p (UInt8.ofNat n))
    (b : UInt8) : p b = true := by
  have hb := List.all_eq_true.mp h b.toNat (List.mem_range.mpr b.toNat_lt_size)
  rwa [UInt8.ofNat_toNat] at hb

namespace Numbers

/-! Products of bytes on numbers, in operations that are quick to evaluate. -/

def double (a : Nat) : Nat := Nat.xor (Nat.mul 2 a) (Nat.mul (Nat.div a 128) 283)

def mulBits : Nat → Nat → Nat → Nat
  | 0, _, _ => 0
  | n + 1, a, b => Nat.xor (Nat.mul (Nat.mod b 2) a) (mulBits n (double a) (Nat.div b 2))

def mul (a b : Nat) : Nat := mulBits 8 a b

def inverse (a : Nat) : Nat :=
  let a2 := mul a a
  let a4 := mul a2 a2
  let a8 := mul a4 a4
  let a16 := mul a8 a8
  let a32 := mul a16 a16
  let a64 := mul a32 a32
  let a128 := mul a64 a64
  mul a2 (mul a4 (mul a8 (mul a16 (mul a32 (mul a64 a128)))))

end Numbers

theorem toNat_double (a : UInt8) : (double a).toNat = Numbers.double a.toNat :=
  beq_iff_eq.mp (forall_byte (p := fun a => (double a).toNat == Numbers.double a.toNat)
    (by decide +kernel) a)

/-- The lowest bit decides whether a summand counts. -/
theorem toNat_summand (a b : UInt8) :
    (if b &&& 1 = 1 then a else 0).toNat = b.toNat % 2 * a.toNat := by
  have hbit : (b &&& 1).toNat = b.toNat % 2 := by
    rw [UInt8.toNat_and]
    exact Nat.and_one_is_mod _
  rcases Nat.mod_two_eq_zero_or_one b.toNat with hb | hb <;> rw [hb] at hbit ⊢
  · have hne : ¬ b &&& 1 = 1 := fun h => by simp [h] at hbit
    rw [if_neg hne,Nat.zero_mul]
    rfl
  · rw [if_pos (UInt8.toNat_inj.mp hbit),Nat.one_mul]

theorem toNat_mulBits (n : Nat) (a b : UInt8) :
    (mulBits n a b).toNat = Numbers.mulBits n a.toNat b.toNat := by
  induction n generalizing a b with
  | zero => rfl
  | succ n ih =>
    have hshift : (b >>> 1).toNat = b.toNat / 2 := by
      rw [UInt8.toNat_shiftRight]
      exact Nat.shiftRight_one _
    rw [mulBits,UInt8.toNat_xor,toNat_summand,ih,toNat_double,hshift]
    rfl

theorem toNat_mul (a b : UInt8) : (mul a b).toNat = Numbers.mul a.toNat b.toNat :=
  toNat_mulBits 8 a b

theorem toNat_inverse (a : UInt8) : (inverse a).toNat = Numbers.inverse a.toNat := by
  simp only [inverse,square,toNat_mul,Numbers.inverse]

theorem inverse_inverse (a : UInt8) : inverse (inverse a) = a := by
  rw [← UInt8.toNat_inj,toNat_inverse,toNat_inverse]
  have hall : (List.range 256).all fun n => Numbers.inverse (Numbers.inverse n) == n := by
    decide +kernel
  exact beq_iff_eq.mp (List.all_eq_true.mp hall _ (List.mem_range.mpr a.toNat_lt_size))

/-- The turns and sums of a substitution are undone by those of its inverse. -/
theorem affine_affine (c : UInt8) :
    let s := c ^^^ rotate c 1 ^^^ rotate c 2 ^^^ rotate c 3 ^^^ rotate c 4 ^^^ 0x63
    rotate s 1 ^^^ rotate s 3 ^^^ rotate s 6 ^^^ 0x05 = c :=
  beq_iff_eq.mp (forall_byte (p := fun c =>
    let s := c ^^^ rotate c 1 ^^^ rotate c 2 ^^^ rotate c 3 ^^^ rotate c 4 ^^^ 0x63
    rotate s 1 ^^^ rotate s 3 ^^^ rotate s 6 ^^^ 0x05 == c) (by decide +kernel) c)

theorem unsubstitute_substitute (b : UInt8) : unsubstitute (substitute b) = b := by
  have haffine := affine_affine (inverse b)
  unfold unsubstitute substitute
  dsimp only at haffine ⊢
  rw [haffine,inverse_inverse]

theorem mulBits_xor (n : Nat) (a b c : UInt8) :
    mulBits n a (b ^^^ c) = mulBits n a b ^^^ mulBits n a c := by
  induction n generalizing a b c with
  | zero => exact UInt8.xor_self.symm
  | succ n ih =>
    have hsummand : (if (b ^^^ c) &&& 1 = 1 then a else 0) =
        (if b &&& 1 = 1 then a else 0) ^^^ (if c &&& 1 = 1 then a else 0) := by
      rw [← UInt8.toNat_inj,UInt8.toNat_xor,toNat_summand,toNat_summand,toNat_summand,
        UInt8.toNat_xor,Nat.xor_mod_two_eq,Nat.add_mod]
      rcases Nat.mod_two_eq_zero_or_one b.toNat with hb | hb <;>
        rcases Nat.mod_two_eq_zero_or_one c.toNat with hc | hc <;> simp [hb,hc]
    rw [mulBits,mulBits,mulBits,hsummand,UInt8.shiftRight_xor,ih]
    ac_rfl

theorem mul_xor (a b c : UInt8) : mul a (b ^^^ c) = mul a b ^^^ mul a c := mulBits_xor 8 a b c

/-- One bit of a byte, in its place. -/
def bitOf (i : Nat) (x : UInt8) : UInt8 :=
  if x.toNat / 2 ^ i % 2 = 1 then UInt8.ofNat (2 ^ i) else 0

theorem sum_bitOf (x : UInt8) :
    bitOf 0 x ^^^ bitOf 1 x ^^^ bitOf 2 x ^^^ bitOf 3 x ^^^ bitOf 4 x ^^^ bitOf 5 x ^^^ bitOf 6 x
      ^^^ bitOf 7 x = x :=
  beq_iff_eq.mp (forall_byte (p := fun x => bitOf 0 x ^^^ bitOf 1 x ^^^ bitOf 2 x ^^^ bitOf 3 x
    ^^^ bitOf 4 x ^^^ bitOf 5 x ^^^ bitOf 6 x ^^^ bitOf 7 x == x) (by decide +kernel) x)

/-- Additive maps agree if they agree on single bits. -/
theorem eq_of_additive {f g : UInt8 → UInt8} (hf : ∀ a b, f (a ^^^ b) = f a ^^^ f b)
    (hg : ∀ a b, g (a ^^^ b) = g a ^^^ g b)
    (h : ∀ i < 8, f (UInt8.ofNat (2 ^ i)) = g (UInt8.ofNat (2 ^ i))) (x : UInt8) : f x = g x := by
  have hzero : ∀ {k : UInt8 → UInt8}, (∀ a b, k (a ^^^ b) = k a ^^^ k b) → k 0 = 0 := by
    intro k hk
    have hself := hk 0 0
    rwa [UInt8.xor_self,UInt8.xor_self] at hself
  have hbit : ∀ i < 8, f (bitOf i x) = g (bitOf i x) := by
    intro i hi
    unfold bitOf
    split
    · exact h i hi
    · rw [hzero hf,hzero hg]
  rw [← sum_bitOf x]
  simp only [hf,hg,hbit,Nat.reduceLT]

/-- What a byte in row `j` of a column adds to row `r`, when the column is mixed by the circulant
matrix of the one row and then by that of the other. -/
def mixedTwice (row row' : List UInt8) (r j : Nat) (x : UInt8) : UInt8 :=
  (List.range 4).foldl
    (fun s k => s ^^^ mul (row'.getD ((k + 4 - r) % 4) 0) (mul (row.getD ((j + 4 - k) % 4) 0) x)) 0

theorem foldl_range_four (g : Nat → UInt8) :
    (List.range 4).foldl (fun s k => s ^^^ g k) 0 = g 0 ^^^ g 1 ^^^ g 2 ^^^ g 3 := by
  have hrange : List.range 4 = [0,1,2,3] := rfl
  simp only [hrange,List.foldl_cons,List.foldl_nil,UInt8.zero_xor]

theorem mixedTwice_xor (row row' : List UInt8) (r j : Nat) (x y : UInt8) :
    mixedTwice row row' r j (x ^^^ y) =
      mixedTwice row row' r j x ^^^ mixedTwice row row' r j y := by
  simp only [mixedTwice,foldl_range_four,mul_xor]
  ac_rfl

/-- The matrices of the cipher are inverses of each other. -/
theorem mixedTwice_inverse {r j : Nat} (hr : r < 4) (hj : j < 4) (x : UInt8) :
    mixedTwice [2,3,1,1] [14,11,13,9] r j x = if r = j then x else 0 := by
  have hall : ∀ r < 4, ∀ j < 4, ∀ i < 8, mixedTwice [2,3,1,1] [14,11,13,9] r j
      (UInt8.ofNat (2 ^ i)) = if r = j then UInt8.ofNat (2 ^ i) else 0 := by
    decide +kernel
  refine eq_of_additive (g := fun x => if r = j then x else 0) (mixedTwice_xor _ _ r j)
    (fun a b => ?_) (hall r hr j hj) x
  split
  · rfl
  · exact UInt8.xor_self.symm

end FlagEngine.Cipher
