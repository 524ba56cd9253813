import FlagEngine.Proofs.Ramp
import Mathlib.Algebra.BigOperators.Group.List.Basic
import Mathlib.Algebra.Order.BigOperators.Group.List
import Mathlib.Algebra.Order.Field.Rat
import Mathlib.Tactic.Linarith
import Mathlib.Tactic.NormNum

/-! Whose share a point falls to, in exact arithmetic. The share of a variation begins where the
weights before it end in sum, and the coverage says how much of it counts. No weight is negative, so
the ranges lie one after the other and the first of them that has a point is the only one; under a
full coverage they leave nothing out up to the sum of the weights. -/
namespace FlagEngine.Bucket

/-- One weight for each variation, none negative, and in sum at most 1.01. -/
def Sound (count : ℕ) (ws : List ℚ) : Prop :=
  ws.length = count ∧ (∀ w ∈ ws, 0 ≤ w) ∧ ws.sum ≤ 101 / 100

instance (count : ℕ) (ws : List ℚ) : Decidable (Sound count ws) :=
  inferInstanceAs (Decidable (_ ∧ _ ∧ _))

def evenShares (count : ℕ) : List ℚ := List.replicate count (1 / count : ℚ)

/-- The weights that count: those given if they are sound, else equal ones. -/
def weightsInForce (count : ℕ) : Option (List ℚ) → List ℚ
  | some ws => if Sound count ws then ws else evenShares count
  | none => evenShares count

/-- The point lies in the covered part of the `i`-th share. -/
def FallsTo (covered : ℚ) (ws : List ℚ) (n : ℚ) (i : ℕ) : Prop :=
  ∃ w, ws[i]? = some w ∧ (ws.take i).sum ≤ n ∧ n < (ws.take i).sum + covered * w

variable {count i j : ℕ} {ws : List ℚ} {c n w : ℚ}

theorem zero_eq : (Fraction.zero : ℚ) = 0 := rfl

theorem one_eq : (Fraction.one : ℚ) = 1 := rfl

theorem usable_iff (count : ℕ) (ws : List ℚ) : usable count ws = true ↔ Sound count ws := by
  have hsum : Fraction.sum ws = ws.sum := List.sum_eq_foldl.symm
  have hlimit : (Fraction.ofRatio 101 100 : ℚ) = 101 / 100 := Rat.mkRat_eq_div 101 100
  have hneg : ∀ w : ℚ, (!decide (w < (Fraction.zero : ℚ))) = true ↔ 0 ≤ w := by
    intro w
    rw [Bool.not_eq_true',decide_eq_false_iff_not]
    exact not_lt
  simp only [usable,Sound,hsum,hlimit,hneg,Bool.and_eq_true,beq_iff_eq,List.all_eq_true,
    decide_eq_true_eq,and_assoc]

theorem equalWeights_eq (count : ℕ) : equalWeights count = evenShares count := by
  have hone : (Fraction.ofRatio 1 count : ℚ) = 1 / count := by
    rw [show (Fraction.ofRatio 1 count : ℚ) = mkRat 1 count from rfl,Rat.mkRat_eq_div,Int.cast_one]
  rw [equalWeights,hone,evenShares]

theorem weightsFor_eq (count : ℕ) (ws? : Option (List ℚ)) :
    weightsFor count ws? = weightsInForce count ws? := by
  cases ws? with
  | none => exact equalWeights_eq count
  | some ws => simp only [weightsFor,weightsInForce,usable_iff,equalWeights_eq]

theorem clamp_eq (c : ℚ) : Fraction.clamp c = max 0 (min c 1) := by
  have hclamp : Fraction.clamp c =
      if 1 < (if c < 0 then 0 else c) then 1 else if c < 0 then 0 else c := rfl
  rw [hclamp]
  rcases lt_or_ge c 0 with h | h
  · rw [if_pos h,if_neg (not_lt.mpr zero_le_one),min_eq_left (h.le.trans zero_le_one),
      max_eq_left h.le]
  · rw [if_neg (not_lt.mpr h)]
    rcases lt_or_ge 1 c with h' | h'
    · rw [if_pos h',min_eq_right h'.le,max_eq_right zero_le_one]
    · rw [if_neg (not_lt.mpr h'),min_eq_left h',max_eq_right h]

/-- After `i` steps the start has moved on by the weights so far. -/
theorem getElem?_layOut (c start : ℚ) (ws : List ℚ) (i : ℕ) :
    (layOut c start ws)[i]? = ws[i]?.map fun w =>
      ⟨start + (ws.take i).sum,start + (ws.take i).sum + c * w⟩ := by
  induction ws generalizing start i with
  | nil => rfl
  | cons w ws ih =>
    cases i with
    | zero => simp [layOut]
    | succ i =>
      rw [layOut,List.getElem?_cons_succ,List.getElem?_cons_succ,ih,List.take_succ_cons,
        List.sum_cons,add_assoc]

theorem fallsTo_iff_has (c : ℚ) (ws : List ℚ) (n : ℚ) (i : ℕ) :
    FallsTo c ws n i ↔ ∃ b, (layOut c 0 ws)[i]? = some b ∧ b.has n = true := by
  simp only [FallsTo,getElem?_layOut,Option.map_eq_some_iff,zero_add]
  constructor
  · rintro ⟨w,hw,hn⟩
    exact ⟨_,⟨w,hw,rfl⟩,(has_iff _ n).mpr hn⟩
  · rintro ⟨_,⟨w,hw,rfl⟩,hn⟩
    exact ⟨w,hw,(has_iff _ n).mp hn⟩

theorem sum_take_le (hws : ∀ w ∈ ws, 0 ≤ w) (hij : i ≤ j) : (ws.take i).sum ≤ (ws.take j).sum :=
  (List.take_sublist_take_left hij).sum_le_sum fun w hw => hws w (List.mem_of_mem_take hw)

/-- A share ends, even when it is covered whole, before any later one begins. -/
theorem end_le_of_lt (hws : ∀ w ∈ ws, 0 ≤ w) (hc : c ≤ 1) (hw : ws[i]? = some w) (hij : i < j) :
    (ws.take i).sum + c * w ≤ (ws.take j).sum := by
  obtain ⟨hi,rfl⟩ := List.getElem?_eq_some_iff.mp hw
  have hcw : c * ws[i] ≤ ws[i] := mul_le_of_le_one_left (hws _ (List.getElem_mem hi)) hc
  calc (ws.take i).sum + c * ws[i] ≤ (ws.take i).sum + ws[i] := by linarith
    _ = (ws.take (i + 1)).sum := (List.sum_take_succ ws i hi).symm
    _ ≤ (ws.take j).sum := sum_take_le hws hij

theorem pairwise_layOut (hws : ∀ w ∈ ws, 0 ≤ w) (hc : c ≤ 1) :
    (layOut c 0 ws).Pairwise fun b b' => b.high ≤ b'.low := by
  rw [List.pairwise_iff_getElem]
  intro i j hi hj hij
  obtain ⟨w,hw,hbi⟩ := Option.map_eq_some_iff.mp
    ((getElem?_layOut c 0 ws i).symm.trans (List.getElem?_eq_getElem hi))
  obtain ⟨v,-,hbj⟩ := Option.map_eq_some_iff.mp
    ((getElem?_layOut c 0 ws j).symm.trans (List.getElem?_eq_getElem hj))
  rw [← hbi,← hbj]
  simpa only [zero_add] using end_le_of_lt hws hc hw hij

theorem FallsTo.unique (hws : ∀ w ∈ ws, 0 ≤ w) (hc : c ≤ 1) (hi : FallsTo c ws n i)
    (hj : FallsTo c ws n j) : i = j := by
  have hno : ∀ {i j : ℕ}, FallsTo c ws n i → FallsTo c ws n j → ¬ i < j := by
    rintro i j ⟨w,hw,-,hend⟩ ⟨-,-,hstart,-⟩ hij
    have hapart := end_le_of_lt hws hc hw hij
    linarith
  exact Nat.le_antisymm (not_lt.mp (hno hj hi)) (not_lt.mp (hno hi hj))

/-- The first range that has the point is the only one. -/
theorem findIdx?_layOut_iff (hws : ∀ w ∈ ws, 0 ≤ w) (hc : c ≤ 1) (n : ℚ) (i : ℕ) :
    (layOut c 0 ws).findIdx? (·.has n) = some i ↔ FallsTo c ws n i := by
  rw [List.findIdx?_eq_some_iff_getElem]
  constructor
  · rintro ⟨hi,hhas,-⟩
    exact (fallsTo_iff_has c ws n i).mpr ⟨_,List.getElem?_eq_getElem hi,hhas⟩
  · intro h
    obtain ⟨b,hb,hhas⟩ := (fallsTo_iff_has c ws n i).mp h
    obtain ⟨hi,rfl⟩ := List.getElem?_eq_some_iff.mp hb
    refine ⟨hi,hhas,fun j hji hj => ?_⟩
    have hfalls : FallsTo c ws n j :=
      (fallsTo_iff_has c ws n j).mpr ⟨_,List.getElem?_eq_getElem (hji.trans hi),hj⟩
    exact absurd (hfalls.unique hws hc h) hji.ne

theorem fallsTo_cons_succ (c w : ℚ) (ws : List ℚ) (n : ℚ) (i : ℕ) :
    FallsTo c (w :: ws) n (i + 1) ↔ FallsTo c ws (n - w) i := by
  simp only [FallsTo,List.getElem?_cons_succ,List.take_succ_cons,List.sum_cons,add_assoc,
    le_sub_iff_add_le',sub_lt_iff_lt_add']

/-- Shares that are covered whole leave no gap before their end. -/
theorem exists_fallsTo (hn : 0 ≤ n) (h : n < ws.sum) : ∃ i, FallsTo 1 ws n i := by
  induction ws generalizing n with
  | nil => exact absurd h (not_lt.mpr hn)
  | cons w ws ih =>
    rcases lt_or_ge n w with hw | hw
    · exact ⟨0,w,rfl,hn,by simpa using hw⟩
    · rw [List.sum_cons] at h
      obtain ⟨i,hi⟩ := ih (n := n - w) (by linarith) (by linarith)
      exact ⟨i + 1,(fallsTo_cons_succ 1 w ws n i).mpr hi⟩

theorem exists_fallsTo_iff (hws : ∀ w ∈ ws, 0 ≤ w) (hn : 0 ≤ n) :
    (∃ i, FallsTo 1 ws n i) ↔ n < ws.sum := by
  refine ⟨?_,exists_fallsTo hn⟩
  rintro ⟨i,w,hw,-,hend⟩
  obtain ⟨hi,-⟩ := List.getElem?_eq_some_iff.mp hw
  have hall := end_le_of_lt hws le_rfl hw hi
  rw [List.take_length] at hall
  linarith

theorem length_weightsInForce (count : ℕ) (ws? : Option (List ℚ)) :
    (weightsInForce count ws?).length = count := by
  cases ws? with
  | none => exact List.length_replicate
  | some ws =>
    rw [weightsInForce]
    split
    · next h => exact h.1
    · exact List.length_replicate

theorem sum_evenShares (hcount : 1 ≤ count) : (evenShares count).sum = 1 := by
  have hne : (count : ℚ) ≠ 0 := Nat.cast_ne_zero.mpr (by omega)
  rw [evenShares,List.sum_replicate,nsmul_eq_mul,mul_one_div_cancel hne]

theorem ranges_eq (count : ℕ) (c : ℚ) (ws? : Option (List ℚ)) :
    ranges count c ws? = layOut (max 0 (min c 1)) 0 (weightsInForce count ws?) := by
  rw [ranges,clamp_eq,weightsFor_eq,zero_eq]

/-- The ranges are as many as the variations, and each ends before those after it begin. A point of
the unit interval is given to the one variation in the covered part of whose share it lies, and to
none if there is no such variation. Under a full coverage that is the case just from the sum of the
weights on, so with equal weights never. -/
theorem points_fall_by_weight (hcount : 1 ≤ count) (c : ℚ) (ws? : Option (List ℚ)) :
    let ws := weightsInForce count ws?
    let covered := max 0 (min c 1)
    let bs := ranges count c ws?
    bs.length = count ∧ bs.Pairwise (fun b b' => b.high ≤ b'.low) ∧
      ∀ n, 0 ≤ n → n < 1 →
        (∀ i, choose n bs = some i ↔ FallsTo covered ws n i) ∧
        (∀ i j, FallsTo covered ws n i → FallsTo covered ws n j → i = j ∧ i < count) ∧
        (choose n bs = none ↔ ∀ i, ¬ FallsTo covered ws n i) ∧
        (1 ≤ c → (choose n bs = none ↔ ws.sum ≤ n)) ∧
        (1 ≤ c → ws = evenShares count → ∃ i, choose n bs = some i) := by
  intro ws covered bs
  have hbs : bs = layOut covered 0 ws := ranges_eq count c ws?
  have hlen : ws.length = count := length_weightsInForce count ws?
  have hws : ∀ w ∈ ws, 0 ≤ w := by
    intro w hw
    have hmem : w ∈ weightsFor count ws? := by rw [weightsFor_eq]; exact hw
    exact zero_le_of_mem_weightsFor hmem
  have hc : covered ≤ 1 := max_le zero_le_one (min_le_right c 1)
  refine ⟨by rw [hbs,length_layOut,hlen],hbs ▸ pairwise_layOut hws hc,fun n hn hn1 => ?_⟩
  have hchoose : ∀ i, choose n bs = some i ↔ FallsTo covered ws n i := by
    intro i
    rw [hbs,choose,one_eq,if_neg (not_le.mpr hn1)]
    exact findIdx?_layOut_iff hws hc n i
  have hnone : choose n bs = none ↔ ∀ i, ¬ FallsTo covered ws n i := by
    rw [Option.eq_none_iff_forall_ne_some]
    exact forall_congr' fun i => not_congr (hchoose i)
  have hfull : 1 ≤ c → (choose n bs = none ↔ ws.sum ≤ n) := by
    intro h
    have hcovered : covered = 1 := by
      rw [show covered = max 0 (min c 1) from rfl,min_eq_right h,max_eq_right zero_le_one]
    rw [hnone,hcovered,← not_exists,exists_fallsTo_iff hws hn,not_lt]
  refine ⟨hchoose,fun i j hi hj => ⟨hi.unique hws hc hj,?_⟩,hnone,hfull,fun h hequal => ?_⟩
  · obtain ⟨w,hw,-⟩ := hi
    exact hlen ▸ (List.getElem?_eq_some_iff.mp hw).1
  · have hsum : ws.sum = 1 := by rw [hequal,sum_evenShares hcount]
    have hsome : choose n bs ≠ none := fun hno => by
      have hle := (hfull h).mp hno
      linarith
    exact Option.ne_none_iff_exists'.mp hsome

/-- Weights may have nothing between them and end a little above one. -/
theorem points_fall_past_a_zero_weight :
    let ws : List ℚ := [1 / 2,0,51 / 100]
    choose (499 / 1000) (ranges 3 1 (some ws)) = some 0 ∧
      choose (1 / 2) (ranges 3 1 (some ws)) = some 2 ∧
      ∀ n, 0 ≤ n → n < 1 → choose n (ranges 3 1 (some ws)) ≠ none := by
  intro ws
  have hforce : weightsInForce 3 (some ws) = ws := by decide +kernel
  obtain ⟨-,-,hpoints⟩ := points_fall_by_weight (by norm_num : 1 ≤ 3) 1 (some ws)
  rw [hforce] at hpoints
  refine ⟨?_,?_,fun n hn hn1 hnone => ?_⟩
  · refine ((hpoints _ (by norm_num) (by norm_num)).1 0).mpr ⟨_,rfl,?_⟩
    norm_num [ws]
  · refine ((hpoints _ (by norm_num) (by norm_num)).1 2).mpr ⟨_,rfl,?_⟩
    norm_num [ws]
  · have hsum := ((hpoints n hn hn1).2.2.2.1 le_rfl).mp hnone
    norm_num [ws] at hsum
    linarith

end FlagEngine.Bucket
