import FlagEngine.Proofs.Traps
import Mathlib.Data.List.Forall2
import Mathlib.Tactic.Common

/-! What documents answer. A document that is read can be asked whether it holds; `Answers` has
both in one, that the reading succeeds and what the answer is. The answer of a document is put
together from those of its parts: one statement for each kind of document, test and operator says
how, and which parts have to be readable for that. -/
namespace FlagEngine

theorem Entries.find?_eq_none_iff {es : Entries} {k : Scalar} :
    es.find? k = none ↔ ∀ e ∈ es, ¬ e.1.sameKey k = true := by
  induction es with
  | nil => simp
  | cons e es ih => cases h : e.1.sameKey k <;> simp [find?,h,ih]

namespace Intake

theorem mem_of_named? {es : Entries} {names : List String} {name : String} {v : Value}
    (h : named? es names = some (name,v)) : name ∈ names := by
  induction names with
  | nil => cases h
  | cons n names ih =>
    unfold named? at h
    split at h
    · cases h
      exact List.mem_cons_self
    · exact List.mem_cons_of_mem _ (ih h)

theorem named?_obj_of_mem {names : List String} {name : String} (h : name ∈ names) (v : Value) :
    named? [(.str name,v)] names = some (name,v) := by
  induction names with
  | nil => cases h
  | cons n names ih =>
    by_cases hn : name = n
    · simp [named?,Entries.find?,hn]
    · have hrest : name ∈ names := (List.mem_cons.mp h).resolve_left hn
      simp [named?,Entries.find?,hn,ih hrest]

theorem named?_obj_of_not_mem {names : List String} {name : String} (h : name ∉ names)
    (v : Value) : named? [(.str name,v)] names = none := by
  induction names with
  | nil => rfl
  | cons n names ih =>
    obtain ⟨hn,hrest⟩ : name ≠ n ∧ name ∉ names := by simpa using h
    simp [named?,Entries.find?,hn,ih hrest]

theorem named?_singleton_of_mem {names : List String} {es : Entries} {e : Scalar × Value}
    (h : named? es names = none) (he : e ∈ es) : named? [e] names = none := by
  have hfind : ∀ k : Scalar, es.find? k = none → Entries.find? [e] k = none := by
    intro k hk
    have hek : ¬ e.1.sameKey k = true := Entries.find?_eq_none_iff.mp hk e he
    simp [Entries.find?,hek]
  induction names with
  | nil => rfl
  | cons n names ih =>
    unfold named? at h ⊢
    split at h
    · cases h
    · next hn =>
      rw [hfind _ hn]
      exact ih h

end Intake

theorem Operator.allHold_eq_all (os : List Operator) (v? : Option Value) :
    Operator.allHold os v? = os.all (·.holds v?) := by
  induction os with
  | nil => simp [Operator.allHold]
  | cons o os ih => simp [Operator.allHold,ih]

theorem ValueTest.allMet_eq_all (ts : List ValueTest) (xs : List Value) :
    ValueTest.allMet ts xs = ts.all fun t => xs.any fun x => t.holds (some x) := by
  induction ts with
  | nil => simp [ValueTest.allMet]
  | cons t ts ih => simp [ValueTest.allMet,ih]

namespace Condition

theorem allHold_eq_all (cs : List Condition) (a : Value) :
    Condition.allHold cs a = cs.all (·.holds a) := by
  induction cs with
  | nil => simp [Condition.allHold]
  | cons c cs ih => simp [Condition.allHold,ih]

theorem anyHolds_eq_any (cs : List Condition) (a : Value) :
    Condition.anyHolds cs a = cs.any (·.holds a) := by
  induction cs with
  | nil => simp [Condition.anyHolds]
  | cons c cs ih => simp [Condition.anyHolds,ih]

section Readings

variable {α β γ : Type}

/-- The reading succeeds, and what was read gives an answer. -/
def Answers (r : Except ConditionFailure α) (ask : α → Bool) (b : Bool) : Prop :=
  ∃ x, r = .ok x ∧ ask x = b

theorem answers_ok_iff (x : α) (ask : α → Bool) (b : Bool) :
    Answers (.ok x) ask b ↔ ask x = b := by
  simp [Answers]

theorem answers_map_iff (g : α → β) (r : Except ConditionFailure α) (ask : β → Bool) (b : Bool) :
    Answers (r.map g) ask b ↔ Answers r (fun x => ask (g x)) b := by
  cases r <;> simp [Answers,Except.map]

/-- What was read gives one answer. -/
theorem answers_iff (r : Except ConditionFailure α) (ask : α → Bool) (b : Bool) :
    Answers r ask b ↔ (∃ x, r = .ok x) ∧ (b = true ↔ Answers r ask true) := by
  cases r with
  | error e => simp [Answers]
  | ok x => cases b <;> simp [Answers]

theorem answers_not_iff (r : Except ConditionFailure α) (ask : α → Bool) (b : Bool) :
    Answers r (fun x => !ask x) b ↔ Answers r ask (!b) := by
  unfold Answers
  refine exists_congr fun x => and_congr_right fun _ => ?_
  cases b <;> simp

theorem answers_any_iff (r : Except ConditionFailure α) (ask : α → γ → Bool) (vs : List γ) :
    Answers r (fun x => vs.any (ask x)) true ↔ ∃ v ∈ vs, Answers r (ask · v) true := by
  cases r <;> simp [Answers]

variable {f : α → Except ConditionFailure β} {refused : β → List String}

theorem collect_eq_ok_iff {xs : List α} {ys : List β} :
    collect f refused xs = .ok ys ↔ List.Forall₂ (fun x y => f x = .ok y) xs ys := by
  refine ⟨forall₂_of_collect,fun h => ?_⟩
  induction h with
  | nil => rfl
  | cons hx _ ih => simp only [collect,hx,ih]

theorem exists_forall₂_iff {xs : List α} :
    (∃ ys, List.Forall₂ (fun x y => f x = .ok y) xs ys) ↔ ∀ x ∈ xs, ∃ y, f x = .ok y := by
  induction xs with
  | nil => simp
  | cons x xs ih =>
    rw [List.forall_mem_cons,← ih]
    constructor
    · rintro ⟨_,h⟩
      cases h with
      | cons hx hxs => exact ⟨⟨_,hx⟩,_,hxs⟩
    · rintro ⟨⟨y,hx⟩,ys,hxs⟩
      exact ⟨y :: ys,.cons hx hxs⟩

/-- Members are read just when each of them is. -/
theorem exists_collect_iff {xs : List α} :
    (∃ ys, collect f refused xs = .ok ys) ↔ ∀ x ∈ xs, ∃ y, f x = .ok y := by
  simp only [collect_eq_ok_iff,exists_forall₂_iff]

theorem all_of_forall₂ {xs : List α} {ys : List β}
    (h : List.Forall₂ (fun x y => f x = .ok y) xs ys) (ask : β → Bool) :
    ys.all ask = true ↔ ∀ x ∈ xs, Answers (f x) ask true := by
  induction h with
  | nil => simp
  | cons hx _ ih => simp [hx,answers_ok_iff,ih]

theorem any_of_forall₂ {xs : List α} {ys : List β}
    (h : List.Forall₂ (fun x y => f x = .ok y) xs ys) (ask : β → Bool) :
    ys.any ask = true ↔ ∃ x ∈ xs, Answers (f x) ask true := by
  induction h with
  | nil => simp
  | cons hx _ ih => simp [hx,answers_ok_iff,ih]

theorem answers_collect_all_iff (xs : List α) (ask : β → Bool) (b : Bool) :
    Answers (collect f refused xs) (fun ys => ys.all ask) b ↔
      (∀ x ∈ xs, ∃ y, f x = .ok y) ∧ (b = true ↔ ∀ x ∈ xs, Answers (f x) ask true) := by
  rw [answers_iff,exists_collect_iff]
  refine and_congr_right fun hreads => ?_
  obtain ⟨ys,hys⟩ : ∃ ys, collect f refused xs = .ok ys := exists_collect_iff.mpr hreads
  rw [hys,answers_ok_iff,all_of_forall₂ (collect_eq_ok_iff.mp hys)]

theorem answers_collect_any_iff (xs : List α) (ask : β → Bool) (b : Bool) :
    Answers (collect f refused xs) (fun ys => ys.isEmpty || ys.any ask) b ↔
      (∀ x ∈ xs, ∃ y, f x = .ok y) ∧
        (b = true ↔ xs = [] ∨ ∃ x ∈ xs, Answers (f x) ask true) := by
  rw [answers_iff,exists_collect_iff]
  refine and_congr_right fun hreads => ?_
  obtain ⟨ys,hys⟩ : ∃ ys, collect f refused xs = .ok ys := exists_collect_iff.mpr hreads
  have hforall := collect_eq_ok_iff.mp hys
  have hempty : ys = [] ↔ xs = [] := by
    rw [← List.length_eq_zero_iff,← List.length_eq_zero_iff,hforall.length_eq]
  rw [hys,answers_ok_iff,Bool.or_eq_true,any_of_forall₂ hforall,List.isEmpty_iff,hempty]

end Readings

/-- Reads a combinator with its argument. -/
def readCombinator (f : Value → Except ConditionFailure Condition) (name : String) (v : Value) :
    Except ConditionFailure Condition :=
  if name = "$or" then (readList f name v).map .anyOf
  else if name = "$nor" then (readList f name v).map (.not ∘ .anyOf)
  else if name = "$and" then (readList f name v).map .allOf
  else (f v).map .not

/-- Of a mapping the first combinator is read, or if there is none every field. -/
theorem readDocument_map (limit : Int) (room : Nat) (es : Entries) :
    readDocument limit (room + 1) (.map es) =
      match Intake.named? es combinators with
      | some (name, v) => readCombinator (readDocument limit room) name v
      | none => (collect (readField (readTest limit room)) Condition.refused es).map .allOf := by
  rw [readDocument]
  simp only [Intake.named?,combinators]
  rcases Entries.find? es (.str "$or") with _ | v
  · rcases Entries.find? es (.str "$nor") with _ | v
    · rcases Entries.find? es (.str "$and") with _ | v
      · rcases Entries.find? es (.str "$not") with _ | v <;> rfl
      · rfl
    · rfl
  · rfl

/-- Reads the argument of an operator that puts a test to the items of a list. -/
def readEvery (f : Value → Except ConditionFailure ValueTest) (v : Value) :
    Except ConditionFailure Operator :=
  match v with
  | .list xs => (collect f ValueTest.refused xs).map (.every ∘ some)
  | _ => .ok (.every none)

theorem readEntry_str (limit : Int) (room : Nat) (name : String) (v : Value) :
    readEntry limit (room + 1) (.str name,v) =
      if name = "$not" then (readTest limit room v).map .not
      else if name = "$size" then (readTest limit room v).map .size
      else if name = "$all" then readEvery (readTest limit room) v
      else if name = "$elemMatch" then
        if isOperators v then (readTest limit room v).map .someValue
        else (readDocument limit room v).map .someItem
      else readPlain name v := by
  unfold readEntry
  split
  case h_5 key name' hnot hsize hall helem heq =>
    obtain rfl := Scalar.str.inj heq
    simp_all
  case h_6 hno => exact absurd rfl (hno name)
  all_goals
    next heq =>
    obtain rfl := Scalar.str.inj heq
    rfl

theorem readEntry_of_no_name {key : Scalar} (h : ∀ name, key ≠ .str name) (limit : Int) (room : Nat)
    (v : Value) : readEntry limit (room + 1) (key,v) = reject (.badPath key) := by
  cases key with
  | str name => exact absurd rfl (h name)
  | _ => rfl

theorem readTest_of_not_operators {v : Value} (h : isOperators v = false) (limit : Int)
    (room : Nat) : readTest limit (room + 1) v = .ok (.literal v) := by
  unfold readTest
  split
  · rw [if_neg (by simp [h])]
  · rfl

theorem readTest_of_operators {es : Entries} (h : isOperators (.map es) = true) (limit : Int)
    (room : Nat) : readTest limit (room + 1) (.map es) =
      (collect (readEntry limit room) Operator.refused es).map .operators := by
  rw [readTest,if_pos h]

/-- Operators hold together: all have to be readable, and all have to hold. -/
theorem answers_operators_iff {es : Entries} (h : isOperators (.map es) = true) (limit : Int)
    (room : Nat) (v? : Option Value) (b : Bool) :
    Answers (readTest limit (room + 1) (.map es)) (·.holds v?) b ↔
      (∀ e ∈ es, ∃ o, readEntry limit room e = .ok o) ∧
        (b = true ↔ ∀ e ∈ es, Answers (readEntry limit room e) (·.holds v?) true) := by
  rw [readTest_of_operators h,answers_map_iff]
  simp only [ValueTest.holds,Operator.allHold_eq_all]
  exact answers_collect_all_iff es _ b

theorem answers_fields_iff {es : Entries} (h : Intake.named? es combinators = none) (limit : Int)
    (room : Nat) (a : Value) (b : Bool) :
    Answers (readDocument limit (room + 1) (.map es)) (·.holds a) b ↔
      (∀ e ∈ es, ∃ c, readField (readTest limit room) e = .ok c) ∧
        (b = true ↔ ∀ e ∈ es, Answers (readField (readTest limit room) e) (·.holds a) true) := by
  rw [readDocument_map,h]
  dsimp only
  rw [answers_map_iff]
  simp only [Condition.holds,allHold_eq_all]
  exact answers_collect_all_iff es _ b

end Condition
end FlagEngine
