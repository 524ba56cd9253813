import FlagEngine.Proofs.Resolution
import Mathlib.Algebra.Order.Ring.Unbundled.Rat
import Mathlib.Tactic.Common

/-! Raising a coverage. The ranges of an experiment begin where they began and end later, but none
beyond the beginning of the next, so a subject that a range had keeps it. Whoever a rule decided for
it decides for in the same way under a larger coverage, and the rules before it do not notice. This
needs of sums and products only that they keep the order, as exact and as rounded ones do. -/
namespace FlagEngine

namespace Fraction

/-- Numbers in a line, with sums and products that keep their order. -/
class Ordered (ν : Type) [Fraction ν] : Prop where
  le_refl (x : ν) : x ≤ x
  le_trans {x y z : ν} : x ≤ y → y ≤ z → x ≤ z
  not_lt {x y : ν} : ¬ x < y ↔ y ≤ x
  zero_le_one : (zero : ν) ≤ one
  zero_le_ofRatio (count : Nat) : (zero : ν) ≤ ofRatio 1 count
  add_zero (x : ν) : x + zero = x
  one_mul (x : ν) : one * x = x
  add_le_add {x y : ν} (s : ν) : x ≤ y → s + x ≤ s + y
  mul_le_mul {c c' w : ν} : c ≤ c' → (zero : ν) ≤ w → c * w ≤ c' * w

namespace Ordered

variable {ν : Type} [Fraction ν] [Ordered ν] {x y z c c' w : ν}

theorem lt_of_lt_of_le (h : x < y) (h' : y ≤ z) : x < z := by
  by_contra hz
  exact not_lt.mpr (le_trans h' (not_lt.mp hz)) h

theorem le_add (s : ν) (hw : (zero : ν) ≤ w) : s ≤ s + w := by
  have h := add_le_add s hw
  rwa [add_zero] at h

/-- What is covered of a weight is no more than the weight. -/
theorem mul_le (hc : c ≤ (one : ν)) (hw : (zero : ν) ≤ w) : c * w ≤ w := by
  have h := mul_le_mul hc hw
  rwa [one_mul] at h

theorem ite_le_ite (b : ν) (h : c ≤ c') :
    (if c < b then b else c) ≤ if c' < b then b else c' := by
  by_cases hc : c < b <;> by_cases hc' : c' < b <;> simp only [hc,hc',if_true,if_false]
  · exact le_refl b
  · exact not_lt.mp hc'
  · exact absurd hc' (not_lt.mpr (le_trans (not_lt.mp hc) h))
  · exact h

theorem ite_le_one (x : ν) : (if (one : ν) < x then one else x) ≤ (one : ν) := by
  by_cases hx : (one : ν) < x <;> simp only [hx,if_true,if_false]
  · exact le_refl one
  · exact not_lt.mp hx

theorem clamp_le_one (x : ν) : clamp x ≤ (one : ν) := ite_le_one _

theorem clamp_le_clamp (h : c ≤ c') : clamp c ≤ clamp c' := by
  have hlow := ite_le_ite (zero : ν) h
  simp only [clamp]
  generalize (if c < (zero : ν) then zero else c) = l at hlow ⊢
  generalize (if c' < (zero : ν) then zero else c') = l' at hlow ⊢
  by_cases hl' : (one : ν) < l'
  · rw [if_pos hl']
    exact ite_le_one l
  · have hl : ¬ (one : ν) < l := fun hl => hl' (lt_of_lt_of_le hl hlow)
    rwa [if_neg hl,if_neg hl']

end Ordered
end Fraction

instance : Fraction.Ordered Rat where
  le_refl := le_refl
  le_trans := le_trans
  not_lt := not_lt
  zero_le_one := by decide
  zero_le_ofRatio := Rat.mkRat_nonneg (by decide)
  add_zero x := Rat.add_zero x
  one_mul x := Rat.one_mul x
  add_le_add s h := Rat.add_le_add_left.mpr h
  mul_le_mul h hw := Rat.mul_le_mul_of_nonneg_right h hw

/-- A rounding of rationals: in order, to numbers that stay, zero and one among them. -/
structure Rounding where
  round : ℚ → ℚ
  monotone : Monotone round
  round_round (x : ℚ) : round (round x) = round x
  round_zero : round 0 = 0
  round_one : round 1 = 1

namespace Rounding

/-- The numbers that a rounding keeps. -/
def Rounded (R : Rounding) : Type := {x : ℚ // R.round x = x}

variable {R : Rounding}

/-- Every operation rounds its exact result. -/
instance : Fraction R.Rounded where
  add x y := ⟨R.round (x.1 + y.1),R.round_round _⟩
  mul x y := ⟨R.round (x.1 * y.1),R.round_round _⟩
  lt x y := x.1 < y.1
  le x y := x.1 ≤ y.1
  ofRatio a b := ⟨R.round (mkRat a b),R.round_round _⟩
  decideLt x y := inferInstanceAs (Decidable (x.1 < y.1))
  decideLe x y := inferInstanceAs (Decidable (x.1 ≤ y.1))

theorem val_zero : (Fraction.zero : R.Rounded).1 = 0 := R.round_zero

theorem val_one : (Fraction.one : R.Rounded).1 = 1 := R.round_one

instance : Fraction.Ordered R.Rounded where
  le_refl x := le_refl x.1
  le_trans h h' := Rat.le_trans h h'
  not_lt := Rat.not_lt
  zero_le_one := by
    show (Fraction.zero : R.Rounded).1 ≤ (Fraction.one : R.Rounded).1
    rw [val_zero,val_one]
    decide
  zero_le_ofRatio count := R.monotone (Rat.mkRat_nonneg (by decide) count)
  add_zero x := by
    apply Subtype.ext
    show R.round (x.1 + (Fraction.zero : R.Rounded).1) = x.1
    rw [val_zero,Rat.add_zero,x.2]
  one_mul x := by
    apply Subtype.ext
    show R.round ((Fraction.one : R.Rounded).1 * x.1) = x.1
    rw [val_one,Rat.one_mul,x.2]
  add_le_add s h := R.monotone (Rat.add_le_add_left.mpr h)
  mul_le_mul {_ _ w} h hw := by
    have hw : 0 ≤ w.1 := val_zero (R := R) ▸ hw
    exact R.monotone (Rat.mul_le_mul_of_nonneg_right h hw)

end Rounding

variable {ν : Type} [Fraction ν]

open Fraction

theorem Bucket.has_iff (b : Bucket ν) (n : ν) : b.has n = true ↔ b.low ≤ n ∧ n < b.high := by
  simp [has]

variable [Fraction.Ordered ν]

namespace Bucket

/-- What is laid out from a start on has no point before it. -/
theorem le_of_findIdx?_layOut {c start n : ν} {ws : List ν} {i : Nat}
    (hws : ∀ w ∈ ws, (zero : ν) ≤ w)
    (h : (layOut c start ws).findIdx? (·.has n) = some i) : start ≤ n := by
  induction ws generalizing start i with
  | nil => cases h
  | cons w ws ih =>
    rw [layOut,List.findIdx?_cons] at h
    split at h
    · next hhas => exact ((has_iff _ n).mp hhas).1
    · obtain ⟨j,hj,-⟩ := Option.map_eq_some_iff.mp h
      have hn : start + w ≤ n := ih (fun v hv => hws v (List.mem_cons_of_mem w hv)) hj
      exact Ordered.le_trans (Ordered.le_add start (hws w List.mem_cons_self)) hn

/-- Under a larger coverage a range keeps its points. -/
theorem findIdx?_layOut_of_le {c c' start n : ν} {ws : List ν} {i : Nat}
    (hws : ∀ w ∈ ws, (zero : ν) ≤ w) (hc : c ≤ c') (hc' : c' ≤ (one : ν))
    (h : (layOut c start ws).findIdx? (·.has n) = some i) :
    (layOut c' start ws).findIdx? (·.has n) = some i := by
  induction ws generalizing start i with
  | nil => cases h
  | cons w ws ih =>
    have hw : (zero : ν) ≤ w := hws w List.mem_cons_self
    have hrest : ∀ v ∈ ws, (zero : ν) ≤ v := fun v hv => hws v (List.mem_cons_of_mem w hv)
    rw [layOut,List.findIdx?_cons] at h ⊢
    split at h
    · next hhas =>
      obtain ⟨hlow,hhigh⟩ := (has_iff _ n).mp hhas
      have hend : start + c * w ≤ start + c' * w :=
        Ordered.add_le_add start (Ordered.mul_le_mul hc hw)
      have hhas' : (⟨start,start + c' * w⟩ : Bucket ν).has n = true :=
        (has_iff _ n).mpr ⟨hlow,Ordered.lt_of_lt_of_le hhigh hend⟩
      rwa [if_pos hhas']
    · obtain ⟨j,hj,hi⟩ := Option.map_eq_some_iff.mp h
      -- The range before ends, even when covered whole, where the next one begins.
      have hnext : start + c' * w ≤ n :=
        Ordered.le_trans (Ordered.add_le_add start (Ordered.mul_le hc' hw))
          (le_of_findIdx?_layOut hrest hj)
      have hhas' : ¬ (⟨start,start + c' * w⟩ : Bucket ν).has n = true :=
        fun hhas' => Ordered.not_lt.mpr hnext ((has_iff _ n).mp hhas').2
      rw [if_neg hhas',ih hrest hj]
      exact congrArg some hi

theorem zero_le_of_mem_weightsFor {count : Nat} {ws? : Option (List ν)} {w : ν}
    (h : w ∈ weightsFor count ws?) : (zero : ν) ≤ w := by
  have hequal : w ∈ (equalWeights count : List ν) → (zero : ν) ≤ w := by
    intro h
    rw [List.eq_of_mem_replicate h]
    exact Ordered.zero_le_ofRatio count
  rcases ws? with _ | ws
  · exact hequal h
  · rw [weightsFor] at h
    split at h
    · next husable =>
      simp only [usable,Bool.and_eq_true,List.all_eq_true] at husable
      have hw := husable.1.2 w h
      exact Ordered.not_lt.mp (by simpa using hw)
    · exact hequal h

theorem choose_ranges_of_le {count : Nat} {ws? : Option (List ν)} {c c' n : ν} {i : Nat}
    (hc : c ≤ c') (h : choose n (ranges count c ws?) = some i) :
    choose n (ranges count c' ws?) = some i := by
  unfold choose at h ⊢
  split at h
  · cases h
  · next hn =>
    rw [if_neg hn]
    exact findIdx?_layOut_of_le (fun w => zero_le_of_mem_weightsFor) (Ordered.clamp_le_clamp hc)
      (Ordered.clamp_le_one c') h

end Bucket

/-- The same rollout without buckets, covering no less. -/
structure Rollout.Widens (r r' : Rollout ν) : Prop where
  buckets : r.buckets = []
  same : r' = {r with coverage := r'.coverage}
  covers : ∀ c ∈ r.coverage, ∃ c' ∈ r'.coverage, c ≤ c'

/-- The same experiment without buckets, covering no less. One without a coverage covers all. -/
structure Experiment.Widens (e e' : Experiment ν) : Prop where
  buckets : e.buckets = []
  same : e' = {e with coverage := e'.coverage}
  covers : e.coverage.getD one ≤ e'.coverage.getD one

inductive Rule.Widens : Rule ν → Rule ν → Prop
  | rollout (condition : Option Condition) {r r' : Rollout ν} (h : r.Widens r') :
    Widens (.when condition (.rollout r)) (.when condition (.rollout r'))
  | experiment (condition : Option Condition) {e e' : Experiment ν} (h : e.Widens e') :
    Widens (.when condition (.experiment e)) (.when condition (.experiment e'))

/-- The same feature, except that the rule at a position covers no less. -/
structure Feature.RampsUp (f f' : Feature ν) (r : Nat) : Prop where
  exists_widens : ∃ x x', f.rules[r]? = some x ∧ x.Widens x' ∧
    f' = {f with rules := f.rules.set r x'}

theorem Rollout.covers_of_widens {r r' : Rollout ν} (h : r.Widens r') {n : ν}
    (hn : r.covers n = true) : r'.covers n = true := by
  have hbuckets : r'.buckets = [] := by rw [h.same,h.buckets]
  unfold covers at hn ⊢
  rw [h.buckets] at hn
  rw [hbuckets]
  rcases hc : r.coverage with _ | c <;> rw [hc] at hn
  · cases hn
  · obtain ⟨c',hc',hle⟩ := h.covers c hc
    rw [Option.mem_def.mp hc']
    exact decide_eq_true (Ordered.le_trans (of_decide_eq_true hn) hle)

theorem Rollout.covered?_of_widens {r r' : Rollout ν} (h : r.Widens r') {a : Value}
    {subject : String} {n : ν} (hx : r.covered? a = some (subject, n)) :
    r'.covered? a = some (subject, n) := by
  obtain ⟨hsubject,hn,hcovers⟩ := (covered?_eq_some_iff r a subject n).mp hx
  refine (covered?_eq_some_iff r' a subject n).mpr ⟨?_,?_,covers_of_widens h hcovers⟩
  · rw [h.same]
    exact hsubject
  · rw [h.same]
    exact hn

variable {σ : Type}

namespace Experiment

theorem draw_of_widens {e e' : Experiment ν} (h : e.Widens e') {subject : String} {i : Nat} {n : ν}
    (hx : e.draw subject = .ok (i, n)) : e'.draw subject = .ok (i, n) := by
  obtain ⟨hn,hi⟩ := (draw_eq_ok_iff e subject i n).mp hx
  have hbuckets : e'.buckets = [] := by rw [h.same,h.buckets]
  have hseed : e'.seedOrKey = e.seedOrKey := by rw [h.same]; rfl
  have hversion : e'.hashVersion = e.hashVersion := by rw [h.same]
  have hcount : e'.count = e.count := by rw [h.same]; rfl
  have hweights : e'.weights = e.weights := by rw [h.same]
  refine (draw_eq_ok_iff e' subject i n).mpr ⟨by rw [hseed,hversion,hn],?_⟩
  simp only [ranges,h.buckets,List.isEmpty_nil,if_true] at hi
  simp only [ranges,hbuckets,hcount,hweights,List.isEmpty_nil,if_true]
  exact Bucket.choose_ranges_of_le h.covers hi

/-- Nothing but the draw asks for the coverage. -/
theorem settle_of_widens {e e' : Experiment ν} (h : e.Widens e') {a : Value} {w w' : World σ}
    {entry : Entry} {x : Inclusion ν} (hx : (e.settle none a w entry).1 = .included x) :
    (e'.settle none a w' entry).1 = .included x := by
  have hsubject : e'.subject? a = e.subject? a := by rw [h.same]; rfl
  have htakeIn : ∀ j origin, e'.takeIn j origin = e.takeIn j origin := fun j origin => by
    rw [h.same]; rfl
  cases entry with
  | excluded reason => cases hx
  | forced j => rw [settle,htakeIn,hsubject]; exact hx
  | pinned j => rw [settle,htakeIn,hsubject]; exact hx
  | eligible subject =>
    simp only [settle,enroll,place] at hx ⊢
    rcases hdraw : e.draw subject with reason | ⟨j,n⟩ <;> rw [hdraw] at hx
    · cases hx
    · rw [draw_of_widens h hdraw]
      simp only [htakeIn]
      exact hx

theorem assign_of_widens {e e' : Experiment ν} (h : e.Widens e') {o : Options} {a : Value}
    {w : World σ} {x : Inclusion ν} (hx : (e.assign none o a w).1 = .ok (.included x)) :
    (e'.assign none o a w).1 = .ok (.included x) := by
  have hentry : e'.entry o a = e.entry o a := by rw [h.same]; rfl
  unfold assign at hx ⊢
  rw [hentry]
  rcases he : e.entry o a with fault | entry <;> simp only [he] at hx ⊢
  · cases hx
  · exact congrArg Except.ok (settle_of_widens h (Except.ok.inj hx))

end Experiment

theorem Rule.gives_of_widens {x x' : Rule ν} (h : x.Widens x') {o : Options} {i : Nat} {a : Value}
    {w : World σ} {v : Verdict ν} (hv : x.Gives ⟨none,o⟩ i a w v) : x'.Gives ⟨none,o⟩ i a w v := by
  cases h with
  | @rollout c r r' h =>
    obtain - | ⟨answers,holds,passes,covered⟩ | - := hv
    have hvalue : r'.value = r.value := by rw [h.same]
    have hfilters : r'.filters = r.filters := by rw [h.same]
    have hstumbles : (Rule.when c (.rollout r')).stumbles a =
        (Rule.when c (.rollout r)).stumbles a := by rw [h.same]; rfl
    rw [← hvalue]
    exact .rollout (hstumbles.trans answers) holds (hfilters ▸ passes)
      (Rollout.covered?_of_widens h covered)
  | @experiment c e e' h =>
    obtain - | - | ⟨answers,holds,included,shown⟩ := hv
    have hkey : e'.key = e.key := by rw [h.same]
    rw [← hkey]
    exact .experiment answers holds (Experiment.assign_of_widens h included) shown

namespace Feature

omit [Ordered ν] in
/-- Of the feature, passing over rules asks for the key only. -/
theorem passes_of_key_eq {f f' : Feature ν} (hkey : f'.key = f.key)
    {s : Setting σ} {a : Value} {i : Nat} {rs : List (Rule ν)} {w u : World σ}
    (h : f.Passes s a i rs w u) : f'.Passes s a i rs w u := by
  induction rs generalizing i w with
  | nil =>
    obtain rfl := (passes_nil_iff s f a i w u).mp h
    exact (passes_nil_iff s f' a i w w).mpr rfl
  | cons x rs ih =>
    obtain ⟨v,hx,hrs⟩ := (passes_cons_iff s f a i x rs w u).mp h
    exact (passes_cons_iff s f' a i x rs w u).mpr ⟨v,by rw [hkey,hx],ih hrs⟩

/-- Whoever got a decision from a rule up to the one that is ramped up keeps it. -/
theorem ramping_up_keeps_decisions {f f' : Feature ν} {r : Nat} (h : f.RampsUp f' r) {o : Options}
    {a : Value} {w : World σ} {d : Decision ν} {i : Nat} (hd : (f.resolve ⟨none,o⟩ a w).1 = .ok d)
    (hi : d.ruleIndex? = some i) (hir : i ≤ r) : (f'.resolve ⟨none,o⟩ a w).1 = .ok d := by
  obtain ⟨x,x',hx,hwidens,rfl⟩ := h
  obtain ⟨hfeature,⟨hv,-⟩ | ⟨j,y,u,hdecided⟩⟩ := (resolve_eq_ok_iff _ f a w d).mp hd
  · simp [Decision.ruleIndex?,hv] at hi
  · obtain rfl : j = i := Option.some.inj ((hdecided.ruleIndex? d.feature).symm.trans hi)
    refine (resolve_eq_ok_iff _ _ a w d).mpr ⟨hfeature,.inr ?_⟩
    -- The rules before stay, and the feature's rules are not asked for otherwise.
    have hpasses : Passes ⟨none,o⟩ {f with rules := f.rules.set r x'} a 0
        ((f.rules.set r x').take j) w u := by
      rw [List.take_set_of_le hir]
      have hkey : {f with rules := f.rules.set r x'}.key = f.key := rfl
      exact passes_of_key_eq hkey hdecided.passes
    by_cases hjr : j = r
    · subst hjr
      have hlt : j < f.rules.length := (List.getElem?_eq_some_iff.mp hx).1
      obtain rfl : x = y := Option.some.inj (hx.symm.trans hdecided.rule)
      exact ⟨j,x',u,List.getElem?_set_self hlt,hpasses,Rule.gives_of_widens hwidens hdecided.gives⟩
    · have hrule : (f.rules.set r x')[j]? = some y := by
        rw [List.getElem?_set_ne (Ne.symm hjr)]
        exact hdecided.rule
      exact ⟨j,y,u,hrule,hpasses,hdecided.gives⟩

/-- An experiment that covers so much of its subjects, the force rule after it having the rest. -/
def coveredTo (c : Rat) : Feature Rat where
  key := "banner"
  default := .null
  rules :=
    let e : Experiment Rat := .ofVariations "exp" [.str "a",.str "b"]
    [.when none (.experiment {e with coverage := some c}),.when none (.force (.str "rest") [])]

theorem ramping_up_beyond_one_keeps_decisions :
    let a : Value := .map [(.str "id",.str "u3")]
    let w : World Memory := ⟨[],[],[]⟩
    (coveredTo (mkRat 1 4)).RampsUp (coveredTo (mkRat 3 2)) 0 ∧
      ∃ d, ((coveredTo (mkRat 1 4)).resolve ⟨none,.default⟩ a w).1 = .ok d ∧
        d.ruleIndex? = some 0 ∧ d.variationIndex? = some 1 ∧ d.point? = some (mkRat 596 1000) ∧
        ((coveredTo (mkRat 3 2)).resolve ⟨none,.default⟩ a w).1 = .ok d := by
  intro a w
  let e (c : Rat) : Experiment Rat :=
    {Experiment.ofVariations "exp" [.str "a",.str "b"] with coverage := some c}
  have hwidens : (e (mkRat 1 4)).Widens (e (mkRat 3 2)) := ⟨rfl,rfl,by decide⟩
  have hramps : (coveredTo (mkRat 1 4)).RampsUp (coveredTo (mkRat 3 2)) 0 :=
    ⟨_,_,rfl,.experiment none hwidens,rfl⟩
  have hcolumns : ((coveredTo (mkRat 1 4)).resolve ⟨none,.default⟩ a w).1.toOption.map
      (fun d => (d.ruleIndex?,d.variationIndex?,d.point?)) =
        some (some 0,some 1,some (mkRat 596 1000)) := by decide +kernel
  rcases hd : ((coveredTo (mkRat 1 4)).resolve ⟨none,.default⟩ a w).1 with fault | d
  · rw [hd] at hcolumns
    cases hcolumns
  · simp only [hd,Except.toOption,Option.map_some,Option.some.injEq,Prod.mk.injEq] at hcolumns
    obtain ⟨hrule,hindex,hpoint⟩ := hcolumns
    exact ⟨hramps,d,rfl,hrule,hindex,hpoint,
      ramping_up_keeps_decisions hramps hd hrule (Nat.le_refl 0)⟩

end Feature
end FlagEngine
