import FlagEngine.Proofs.HashPermutation
import FlagEngine.Proofs.Recomputation

/-! Points lie below one. A point is a remainder over its modulus, and as a double too it stays
below one. So whoever is placed is placed by a point before the end of the unit interval, and it
makes no difference what becomes of points from one on: whatever search of the ranges does below one
what it should, assignments come out the same. -/
namespace FlagEngine

namespace Bucket

/-- A way to find the range that has a point. -/
abbrev Search (ν : Type) := ν → List (Bucket ν) → Option Nat

/-- Below one the search is that for the first range that has the point. -/
def Search.RightBelowOne {ν : Type} [Fraction ν] (search : Search ν) : Prop :=
  ∀ n bs, ¬ (Fraction.one : ν) ≤ n → search n bs = choose n bs

/-- The search that goes on from one. -/
def Search.endless {ν : Type} [Fraction ν] : Search ν := fun n bs => bs.findIdx? (·.has n)

theorem Search.rightBelowOne_endless {ν : Type} [Fraction ν] :
    (endless : Search ν).RightBelowOne := fun _ _ h => (if_neg h).symm

end Bucket

namespace Experiment

variable {ν : Type} [Fraction ν] {σ : Type}

/-- Drawing by another search. -/
def drawBy (search : Bucket.Search ν) (e : Experiment ν) (subject : String) :
    Except Exclusion (Nat × ν) :=
  match Hash.point? e.seedOrKey subject e.hashVersion with
  | none => .error (.invalidHashVersion e.hashVersion)
  | some n =>
    match search n e.ranges with
    | none => .error .notInBucket
    | some i => .ok (i, n)

def placeBy (search : Bucket.Search ν) (e : Experiment ν) (store? : Option (Store σ))
    (subject : String) (w : World σ) : Assignment ν × World σ :=
  match e.drawBy search subject with
  | .error r => (.excluded (some subject), w.note (.experimentSkipped e.key r))
  | .ok (i, n) =>
    (e.takeIn i (.placed subject n),
      (e.write store? subject i w).note (.variationAssigned e.key i))

def enrollBy (search : Bucket.Search ν) (e : Experiment ν) (store? : Option (Store σ))
    (subject : String) (w : World σ) : Assignment ν × World σ :=
  match store? with
  | none => e.placeBy search none subject w
  | some store =>
    match e.stored store subject w with
    | (some i, w) => (e.takeIn i (.sticky subject), w)
    | (none, w) => e.placeBy search (some store) subject w

/-- Only subjects that may enter come to be searched for. -/
def settleBy (search : Bucket.Search ν) (e : Experiment ν) (store? : Option (Store σ)) (a : Value)
    (w : World σ) : Entry → Assignment ν × World σ
  | .eligible subject => e.enrollBy search store? subject w
  | entry => e.settle store? a w entry

/-- Assigning by another search. -/
def assignBy (search : Bucket.Search ν) (e : Experiment ν) (store? : Option (Store σ))
    (o : Options) (a : Value) (w : World σ) : Except Fault (Assignment ν) × World σ :=
  match e.entry o a with
  | .error stop => (.error stop.fault, w.noteAll (e.stopNotes a stop))
  | .ok entry =>
    let (x, w) := e.settleBy search store? a (w.noteAll (e.entryNotes a entry)) entry
    (.ok x, w)

variable {search : Bucket.Search ν} {e : Experiment ν}

theorem drawBy_eq (hsearch : search.RightBelowOne) {subject : String}
    (hpoint : ∀ n, Hash.point? e.seedOrKey subject e.hashVersion = some n →
      ¬ (Fraction.one : ν) ≤ n) : e.drawBy search subject = e.draw subject := by
  unfold drawBy draw
  cases hp : (Hash.point? e.seedOrKey subject e.hashVersion : Option ν) with
  | none => rfl
  | some n =>
    have hn := hsearch n e.ranges (hpoint n hp)
    cases hchoose : Bucket.choose n e.ranges <;> simp only [hn,hchoose]

theorem placeBy_eq {subject : String} (h : e.drawBy search subject = e.draw subject)
    (store? : Option (Store σ)) (w : World σ) :
    e.placeBy search store? subject w = e.place store? subject w := by
  unfold placeBy place
  cases hdraw : e.draw subject <;> simp only [h,hdraw]

theorem enrollBy_eq {subject : String} (h : e.drawBy search subject = e.draw subject)
    (store? : Option (Store σ)) (w : World σ) :
    e.enrollBy search store? subject w = e.enroll store? subject w := by
  cases store? with
  | none => exact placeBy_eq h none w
  | some store =>
    simp only [enrollBy,enroll]
    rcases e.stored store subject w with ⟨_ | i,v⟩
    · exact placeBy_eq h (some store) v
    · rfl

theorem assignBy_eq (h : ∀ subject, e.drawBy search subject = e.draw subject)
    (store? : Option (Store σ)) (o : Options) (a : Value) (w : World σ) :
    e.assignBy search store? o a w = e.assign store? o a w := by
  unfold assignBy assign
  rcases e.entry o a with f | entry
  · rfl
  · cases entry with
    | eligible subject =>
      have heq := enrollBy_eq (h subject) store? (w.noteAll (e.entryNotes a (.eligible subject)))
      simp only [settleBy,settle,heq]
    | _ => rfl

end Experiment

namespace Hash

variable {ν : Type} [Fraction ν]

theorem exists_point?_one (seed value : String) :
    ∃ k < 1000, k = cutOfText (value ++ seed) % 1000 ∧
      (point? seed value 1 : Option ν) = some (Fraction.ofRatio k 1000) := by
  refine ⟨thousandths seed value,Nat.mod_lt _ (by decide),?_,rfl⟩
  rw [thousandths,cutOfText_eq]

theorem exists_point?_two (seed value : String) :
    ∃ k < 10000, k = cutOfText (Number.digits (cutOfText (seed ++ value))) % 10000 ∧
      (point? seed value 2 : Option ν) = some (Fraction.ofRatio k 10000) := by
  refine ⟨tenThousandths seed value,Nat.mod_lt _ (by decide),?_,rfl⟩
  rw [tenThousandths,cutOfText_eq,cutOfText_eq]

theorem point?_of_unknown (seed value : String) {version : Int} (h : version ≠ 1)
    (h' : version ≠ 2) : (point? seed value version : Option ν) = none := by
  rw [point?,if_neg h',if_neg h]

/-- No double that is a point reaches one. -/
theorem not_one_le_of_point? {seed value : String} {version : Int} {n : Float}
    (h : point? seed value version = some n) : ¬ Fraction.one ≤ n := by
  have hone : (Fraction.one : Float) ≤ Fraction.one :=
    (Rank.le_iff _ _).mpr ⟨Rank.mk 1 (-52) (2 ^ 52),rfl,Rank.mk 1 (-52) (2 ^ 52),rfl,le_refl _⟩
  exact Fraction.Coherent.not_le_of_lt_of_le (mem_unit_of_point? h).2 hone

end Hash

/-- The hash of a text is the loop over natural numbers in which every product is cut to 32 bits,
and the one in which only the last is. A text that follows another goes on from its hash. Every byte
string permutes the states, so texts that differ in one byte have different hashes. The points that
come of hashes are thousandths or ten thousandths below one, and so no assignment depends on what is
done with points from one on. -/
theorem bytes_permute_hashes_and_points_stay_below_one :
    (∀ s : String, Hash.cutOfText s < 2 ^ 32 ∧ Hash.cutOfText s = (Hash.ofText s).toNat ∧
        Hash.cutOfText s = Hash.wideOfText s % 2 ^ 32) ∧
      (∀ s t : String,
        Hash.ofText (s ++ t) = Hash.fold (Hash.ofText s) (Utf8.encode t.toList)) ∧
      (∀ bs : List UInt8, (Function.Bijective fun h => Hash.fold h bs) ∧
        ∀ h : UInt32, bs.foldl Hash.cutStep h.toNat = (Hash.fold h bs).toNat) ∧
      (∀ s t : String, Hash.DifferOnce (Utf8.encode s.toList) (Utf8.encode t.toList) →
        Hash.ofText s ≠ Hash.ofText t) ∧
      (∀ seed value : String,
        (∃ k < 1000, k = Hash.cutOfText (value ++ seed) % 1000 ∧
          Hash.point? seed value 1 = some (Float.ofNat k / Float.ofNat 1000)) ∧
        (∃ k < 10000, k = Hash.cutOfText (Number.digits (Hash.cutOfText (seed ++ value))) % 10000 ∧
          Hash.point? seed value 2 = some (Float.ofNat k / Float.ofNat 10000)) ∧
        ∀ version, (version ≠ 1 → version ≠ 2 →
            (Hash.point? seed value version : Option Float) = none) ∧
          ∀ n : Float, Hash.point? seed value version = some n →
            Fraction.zero ≤ n ∧ n < Fraction.one ∧ ¬ Fraction.one ≤ n) ∧
      ∀ (σ : Type) (search : Bucket.Search Float), search.RightBelowOne →
        ∀ (e : Experiment Float) (store? : Option (Store σ)) (o : Options) (a : Value)
          (w : World σ), e.assignBy search store? o a w = e.assign store? o a w := by
  refine ⟨fun s => ?_,Hash.ofText_append,
    fun bs => ⟨Hash.fold_bijective bs,fun h => Hash.foldl_cutStep h bs⟩,
    fun s t => Hash.fold_ne_of_differOnce Hash.basis,fun seed value => ?_,?_⟩
  · rw [Hash.wideOfText_mod,Hash.cutOfText_eq]
    exact ⟨(Hash.ofText s).toNat_lt,rfl,rfl⟩
  · refine ⟨Hash.exists_point?_one seed value,Hash.exists_point?_two seed value,
      fun version => ⟨Hash.point?_of_unknown seed value,fun n hn => ?_⟩⟩
    obtain ⟨hlow,hhigh⟩ := Hash.mem_unit_of_point? hn
    exact ⟨hlow,hhigh,Hash.not_one_le_of_point? hn⟩
  · intro σ search hsearch e store? o a w
    exact Experiment.assignBy_eq
      (fun _ => Experiment.drawBy_eq hsearch fun _ => Hash.not_one_le_of_point?) store? o a w

/-- A search that goes on from one finds ranges there, but no assignment comes to ask for them. -/
theorem search_from_one_on_is_never_asked_for :
    let e : Experiment Float := .ofVariations "exp" [.str "a",.str "b"]
    let a : Value := .map [(.str "id",.str "u1")]
    let w : World Memory := ⟨[],[],[]⟩
    let wide : List (Bucket Float) := [⟨Fraction.zero,Fraction.ofRatio 3 2⟩]
    (Hash.DifferOnce (Utf8.encode "exp-1".toList) (Utf8.encode "exp-2".toList) ∧
        Hash.ofText "exp-1" ≠ Hash.ofText "exp-2") ∧
      (Hash.point? "exp" "u1" 3 : Option Float) = none ∧
      (∃ n : Float, Hash.point? "exp" "u1" 2 = some n ∧ ¬ Fraction.one ≤ n) ∧
      (Bucket.Search.endless Fraction.one wide = some 0 ∧
        Bucket.choose Fraction.one wide = none) ∧
      (Bucket.Search.endless (ν := Float)).RightBelowOne ∧
      e.assignBy .endless (some Memory.store) .default a w =
        e.assign (some Memory.store) .default a w := by
  intro e a w wide
  obtain ⟨-,-,-,hdiffer,hpoint,hassign⟩ := bytes_permute_hashes_and_points_stay_below_one
  have honce : Hash.DifferOnce (Utf8.encode "exp-1".toList) (Utf8.encode "exp-2".toList) := by
    decide +kernel
  obtain ⟨-,⟨k,-,-,hk⟩,hversion⟩ := hpoint "exp" "u1"
  exact ⟨⟨honce,hdiffer _ _ honce⟩,(hversion 3).1 (by decide) (by decide),
    ⟨_,hk,((hversion 2).2 _ hk).2.2⟩,⟨by decide +kernel,by decide +kernel⟩,
    Bucket.Search.rightBelowOne_endless,
    hassign Memory .endless Bucket.Search.rightBelowOne_endless e (some Memory.store) .default a w⟩

end FlagEngine
