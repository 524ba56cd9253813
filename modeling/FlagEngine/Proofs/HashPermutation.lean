import FlagEngine.Hash
import Mathlib.Data.Nat.Bitwise
import Mathlib.Data.Nat.ModEq
import Mathlib.Tactic.Common

/-! The hash as a permutation of its states. The prime is odd, so among words of 32 bits it can be
divided by, and what a byte does to a state can be undone: every byte string permutes the states,
and byte strings that differ in one byte lead apart. The words stand for a loop over natural
numbers, in which it makes no difference whether every product is cut to 32 bits or only the last
one. -/
namespace FlagEngine.Hash

/-- A step on natural numbers, which grow. -/
def wideStep (h : ℕ) (b : UInt8) : ℕ := (h ^^^ b.toNat) * 0x01000193

/-- A step on natural numbers, of which the last 32 bits are kept. -/
def cutStep (h : ℕ) (b : UInt8) : ℕ := wideStep h b &&& 0xffffffff

def wideOfText (s : String) : ℕ := (Utf8.encode s.toList).foldl wideStep 0x811c9dc5

def cutOfText (s : String) : ℕ := (Utf8.encode s.toList).foldl cutStep 0x811c9dc5

theorem cutStep_eq (h : ℕ) (b : UInt8) : cutStep h b = wideStep h b % 2 ^ 32 :=
  Nat.and_two_pow_sub_one_eq_mod _ 32

/-- A byte touches the last bits only, so a state may be cut before the byte comes in. -/
theorem wideStep_modEq {m n : ℕ} (h : m ≡ n [MOD 2 ^ 32]) (b : UInt8) :
    wideStep m b ≡ wideStep n b [MOD 2 ^ 32] := by
  have hxor : m ^^^ b.toNat ≡ n ^^^ b.toNat [MOD 2 ^ 32] := by
    unfold Nat.ModEq at h ⊢
    rw [Nat.xor_mod_two_pow,Nat.xor_mod_two_pow,h]
  exact hxor.mul_right _

theorem toNat_step (h : UInt32) (b : UInt8) : (step h b).toNat = wideStep h.toNat b % 2 ^ 32 := by
  rw [step,UInt32.toNat_mul,UInt32.toNat_xor,UInt8.toNat_toUInt32]
  rfl

/-- Cutting every product is what words do. -/
theorem foldl_cutStep (h : UInt32) (bs : List UInt8) :
    bs.foldl cutStep h.toNat = (fold h bs).toNat := by
  induction bs generalizing h with
  | nil => rfl
  | cons b bs ih => rw [List.foldl_cons,cutStep_eq,← toNat_step,ih,fold_cons]

/-- Cutting once, at the end, does the same. -/
theorem foldl_wideStep {h : UInt32} {n : ℕ} (hn : n ≡ h.toNat [MOD 2 ^ 32]) (bs : List UInt8) :
    bs.foldl wideStep n % 2 ^ 32 = (fold h bs).toNat := by
  induction bs generalizing h n with
  | nil =>
    rw [List.foldl_nil,fold_nil,hn]
    exact Nat.mod_eq_of_lt h.toNat_lt
  | cons b bs ih =>
    have hstep : wideStep n b ≡ (step h b).toNat [MOD 2 ^ 32] := by
      rw [toNat_step]
      exact (wideStep_modEq hn b).trans (Nat.mod_modEq _ _).symm
    rw [List.foldl_cons,ih hstep,fold_cons]

theorem cutOfText_eq (s : String) : cutOfText s = (ofText s).toNat :=
  foldl_cutStep basis (Utf8.encode s.toList)

example : cutOfText "" = 2166136261 ∧ cutOfText "a" = 3826002220 := by decide +kernel

theorem wideOfText_mod (s : String) : wideOfText s % 2 ^ 32 = (ofText s).toNat :=
  foldl_wideStep (h := basis) (Nat.ModEq.refl _) (Utf8.encode s.toList)

theorem ofText_append (s t : String) :
    ofText (s ++ t) = fold (ofText s) (Utf8.encode t.toList) := by
  rw [ofText,String.toList_append,Utf8.encode_append,fold_append]
  rfl

/-- Times the prime it is one. -/
def inverse : UInt32 := 0x359c449b

theorem prime_mul_inverse : prime * inverse = 1 := by decide

/-- Takes a step back. -/
def unstep (h : UInt32) (b : UInt8) : UInt32 := h * inverse ^^^ b.toUInt32

theorem step_mul_inverse (h : UInt32) (b : UInt8) : step h b * inverse = h ^^^ b.toUInt32 := by
  rw [step,UInt32.mul_assoc,prime_mul_inverse,UInt32.mul_one]

theorem unstep_step (h : UInt32) (b : UInt8) : unstep (step h b) b = h := by
  rw [unstep,step_mul_inverse,UInt32.xor_assoc,UInt32.xor_self,UInt32.xor_zero]

theorem step_unstep (h : UInt32) (b : UInt8) : step (unstep h b) b = h := by
  rw [step,unstep,UInt32.xor_assoc,UInt32.xor_self,UInt32.xor_zero,UInt32.mul_assoc,
    UInt32.mul_comm inverse,prime_mul_inverse,UInt32.mul_one]

theorem step_bijective (b : UInt8) : Function.Bijective fun h => step h b :=
  Function.bijective_iff_has_inverse.mpr
    ⟨fun h => unstep h b,fun h => unstep_step h b,fun h => step_unstep h b⟩

theorem fold_bijective (bs : List UInt8) : Function.Bijective fun h => fold h bs := by
  induction bs with
  | nil => exact Function.bijective_id
  | cons b bs ih => exact ih.comp (step_bijective b)

/-- From one state different bytes lead to different states. -/
theorem step_ne (h : UInt32) {b c : UInt8} (hbc : b ≠ c) : step h b ≠ step h c := by
  intro heq
  have hxor := congrArg (· * inverse) heq
  simp only [step_mul_inverse,UInt32.xor_right_inj,UInt8.toUInt32_inj] at hxor
  exact hbc hxor

/-- Of one length, and different in exactly one place. -/
def DifferOnce (bs cs : List UInt8) : Prop :=
  bs.length = cs.length ∧ (bs.zip cs).countP (fun p => p.1 != p.2) = 1

instance (bs cs : List UInt8) : Decidable (DifferOnce bs cs) :=
  inferInstanceAs (Decidable (_ ∧ _))

theorem countP_zip_eq_zero_iff {bs cs : List UInt8} (hlength : bs.length = cs.length) :
    (bs.zip cs).countP (fun p => p.1 != p.2) = 0 ↔ bs = cs := by
  induction bs generalizing cs with
  | nil =>
    obtain rfl := List.length_eq_zero_iff.mp hlength.symm
    simp
  | cons b bs ih =>
    cases cs with
    | nil => cases hlength
    | cons c cs =>
      have hrest := ih (Nat.succ.inj hlength)
      simp [List.countP_cons,hrest,and_comm]

theorem differOnce_cons_iff {b c : UInt8} {bs cs : List UInt8} :
    DifferOnce (b :: bs) (c :: cs) ↔ b = c ∧ DifferOnce bs cs ∨ b ≠ c ∧ bs = cs := by
  by_cases hbc : b = c
  · simp [DifferOnce,hbc]
  · have hcount : DifferOnce (b :: bs) (c :: cs) ↔ bs.length = cs.length ∧
        (bs.zip cs).countP (fun p => p.1 != p.2) = 0 := by simp [DifferOnce,hbc]
    have heq : bs = cs → bs.length = cs.length := congrArg List.length
    rw [hcount,and_congr_right countP_zip_eq_zero_iff,and_iff_right_of_imp heq]
    simp [hbc]

/-- A difference in one byte is never made good, whatever comes behind it. -/
theorem fold_ne_of_differOnce (h : UInt32) {bs cs : List UInt8} (hdiffer : DifferOnce bs cs) :
    fold h bs ≠ fold h cs := by
  induction bs generalizing h cs with
  | nil => exact absurd hdiffer.2 (by simp)
  | cons b bs ih =>
    cases cs with
    | nil => exact absurd hdiffer.2 (by simp)
    | cons c cs =>
      rw [fold_cons,fold_cons]
      -- The bytes in front are the same, or else all bytes behind them are.
      obtain ⟨rfl,hrest⟩ | ⟨hbc,rfl⟩ := differOnce_cons_iff.mp hdiffer
      · exact ih (step h b) hrest
      · exact (fold_bijective bs).injective.ne (step_ne h hbc)

end FlagEngine.Hash
