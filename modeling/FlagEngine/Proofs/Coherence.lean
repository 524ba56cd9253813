import FlagEngine.Condition.Match
import FlagEngine.Proofs.Equality
import FlagEngine.Proofs.ExactValue

/-! Equality and order fit together. Equality of plain values is an equivalence but for what is not
a number, and goes through to every place within: there truth values meet only themselves, and
numbers only what has their exact value. Two numbers, or two texts, are ordered along with it;
nothing else is ordered. -/
namespace FlagEngine

/-- Of three ways in which two things on a line may lie, there is one in which they do. -/
theorem count_trichotomy {α : Type} [LinearOrder α] (a b : α) :
    [decide (a < b),decide (a = b),decide (b < a)].count true = 1 := by
  rcases lt_trichotomy a b with h | rfl | h
  · simp [h,h.ne,h.not_gt]
  · simp
  · simp [h,h.ne',h.not_gt]

namespace Value

variable {u v w : Value}

/-- Values as JSON and callers have them: scalars that are no times, lists, and mappings under
distinct names. -/
inductive Plain : Value → Prop
  | null : Plain .null
  | bool (b : Bool) : Plain (.bool b)
  | int (n : Int) : Plain (.int n)
  | float (x : Float) : Plain (.float x)
  | str (s : String) : Plain (.str s)
  | bytes (bs : List UInt8) : Plain (.bytes bs)
  | list {xs : List Value} (h : ∀ x ∈ xs, Plain x) : Plain (.list xs)
  | obj {fields : List (String × Value)} (names : (fields.map (·.1)).Nodup)
      (h : ∀ f ∈ fields, Plain f.2) : Plain (.obj fields)

theorem distinct_obj {fields : List (String × Value)} (h : (fields.map (·.1)).Nodup) :
    Scalar.Distinct ((fields.map fun f => (Scalar.str f.1,f.2)).map (·.1)) := by
  rw [List.map_map,Scalar.Distinct,List.pairwise_map]
  refine (List.pairwise_map.mp h).imp fun hne => ?_
  simpa using hne

theorem Plain.proper (h : v.Plain) : v.Proper := by
  induction h with
  | list _ ih => exact .list ih
  | obj names _ ih =>
    refine .map (distinct_obj names) fun e he => ?_
    obtain ⟨f,hf,rfl⟩ := List.mem_map.mp he
    exact ih f hf
  | _ => exact .scalar _

/-- Something within is not a number. -/
inductive HasNan : Value → Prop
  | float {x : Float} (h : x.isNaN = true) : HasNan (.float x)
  | item {xs : List Value} {x : Value} (hx : x ∈ xs) (h : HasNan x) : HasNan (.list xs)
  | entry {es : Entries} {e : Scalar × Value} (he : e ∈ es) (h : HasNan e.2) : HasNan (.map es)

theorem not_hasNan_list_iff {xs : List Value} : ¬ HasNan (.list xs) ↔ ∀ x ∈ xs, ¬ x.HasNan := by
  constructor
  · exact fun h x hx hnan => h (.item hx hnan)
  · rintro h (_ | ⟨hx,hnan⟩)
    exact h _ hx hnan

theorem not_hasNan_map_iff {es : Entries} : ¬ HasNan (.map es) ↔ ∀ e ∈ es, ¬ e.2.HasNan := by
  constructor
  · exact fun h e he hnan => h (.entry he hnan)
  · rintro h (_ | _ | ⟨he,hnan⟩)
    exact h _ he hnan

theorem same_scalar_self_iff (a : Scalar) :
    same (.scalar a) (.scalar a) = true ↔ a.face ≠ .number .nan := by
  simp [same,sameAs,Scalar.alike_iff]

/-- A mapping under distinct keys equals itself if its values do. -/
theorem same_map_self_iff {es : Entries} (hkeys : Scalar.Distinct (es.map (·.1))) :
    same (.map es) (.map es) = true ↔ ∀ e ∈ es, e.2.same e.2 = true := by
  simp only [same,sameAs,beq_self_eq_true,Bool.true_and,sameEntries_iff]
  refine forall₂_congr fun e he => ?_
  rw [Entries.find?_of_mem hkeys he (Scalar.sameKey_self e.1)]
  simp

theorem Plain.same_self_iff (h : v.Plain) : v.same v = true ↔ ¬ v.HasNan := by
  induction h with
  | float x =>
    rw [same_scalar_self_iff,Scalar.face,ne_eq,Face.number.injEq,Extended.ofFloat_eq_nan_iff]
    exact not_congr ⟨.float,fun h => by cases h; assumption⟩
  | @list xs _ ih =>
    rw [not_hasNan_list_iff,same,sameAs,sameItems_iff,List.forall₂_same]
    exact forall₂_congr ih
  | @obj fields names _ ih =>
    rw [Value.obj,not_hasNan_map_iff,same_map_self_iff (distinct_obj names),
      List.forall_mem_map,List.forall_mem_map]
    exact forall₂_congr ih
  | _ =>
    rw [same_scalar_self_iff]
    refine iff_of_true (by simp [Scalar.face,Extended.ofInt]) fun hnan => ?_
    cases hnan

/-- One step into a value: to an item of a list or to a field of a mapping. -/
inductive Step
  | item (i : Nat)
  | field (name : String)

def step? : Value → Step → Option Value
  | .list xs, .item i => xs[i]?
  | _, .item _ => none
  | v, .field name => v.field? name

/-- The value at a place within. -/
def at? (v : Value) : List Step → Option Value
  | [] => some v
  | s :: ss => (v.step? s).bind (at? · ss)

theorem getElem?_rel {α β : Type} {R : α → β → Prop} {xs : List α} {ys : List β}
    (h : List.Forall₂ R xs ys) (i : Nat) : Option.Rel R xs[i]? ys[i]? := by
  induction h generalizing i with
  | nil => exact .none
  | cons hxy _ ih =>
    cases i with
    | zero => exact .some hxy
    | succ i => exact ih i

theorem Equal.step? (h : Equal v w) (s : Step) : Option.Rel Equal (v.step? s) (w.step? s) := by
  cases s with
  | item i =>
    cases h.matched with
    | list hxs => exact getElem?_rel hxs i
    | _ => exact .none
  | field name =>
    have hrel := h.field name
    cases h.matched <;> exact hrel

theorem Equal.at? (h : Equal v w) (place : List Step) :
    Option.Rel Equal (v.at? place) (w.at? place) := by
  induction place generalizing v w with
  | nil => exact .some h
  | cons s place ih =>
    have hrel := h.step? s
    simp only [Value.at?]
    generalize v.step? s = x? at hrel ⊢
    generalize w.step? s = y? at hrel ⊢
    cases hrel with
    | none => exact .none
    | some hxy => exact ih hxy

/-- The exact value of a number. -/
def exactValue? : Value → Option Line
  | .int n => some (n : ℚ)
  | .float x => Line.ofFloat? x
  | _ => none

theorem exactValue?_eq (v : Value) : v.exactValue? = v.number?.bind Extended.line? := by
  rcases v with (_ | _ | n | x | _ | _ | _ | _) | _ | _ | _ | _
  case scalar.float => exact (Extended.line?_ofFloat x).symm
  all_goals rfl

theorem Equal.eq_bool {b : Bool} (h : Equal (.bool b) w) : w = .bool b := by
  cases h.matched with
  | scalar hab => cases hab; rfl

theorem Equal.exactValue?_eq (h : Equal v w) : v.exactValue? = w.exactValue? := by
  rw [Value.exactValue?_eq,Value.exactValue?_eq]
  cases h.matched with
  | scalar hab =>
    cases hab with
    | refl a => rfl
    | intFloat hp => simp only [number?,hp]
    | floatInt hp => simp only [number?,hp]
    | floats hp => simp only [number?,(Extended.same_iff.mp hp).1]
    | moments s t => rfl
  | _ => rfl

/-- At a place within, equal values have equal ones, or both nothing. -/
theorem Equal.at?_cases (h : Equal v w) (place : List Step) :
    v.at? place = none ∧ w.at? place = none ∨
      ∃ x y, v.at? place = some x ∧ w.at? place = some y ∧ Equal x y := by
  have hrel := h.at? place
  generalize v.at? place = x? at hrel ⊢
  generalize w.at? place = y? at hrel ⊢
  cases hrel with
  | none => exact .inl ⟨rfl,rfl⟩
  | some hxy => exact .inr ⟨_,_,rfl,rfl,hxy⟩

theorem Equal.bool_at? (h : Equal v w) (place : List Step) (b : Bool) :
    v.at? place = some (.bool b) ↔ w.at? place = some (.bool b) := by
  obtain ⟨hv,hw⟩ | ⟨x,y,hv,hw,hxy⟩ := h.at?_cases place
  · rw [hv,hw]
  · rw [hv,hw,Option.some.injEq,Option.some.injEq]
    exact ⟨fun hx => (hx ▸ hxy).eq_bool,fun hy => (hy ▸ hxy.symm).eq_bool⟩

theorem Equal.exactValue?_at? (h : Equal v w) (place : List Step) :
    (v.at? place).bind exactValue? = (w.at? place).bind exactValue? := by
  obtain ⟨hv,hw⟩ | ⟨x,y,hv,hw,hxy⟩ := h.at?_cases place
  · rw [hv,hw]
  · rw [hv,hw,Option.bind_some,Option.bind_some,hxy.exactValue?_eq]

def isNumber (v : Value) : Bool := v.number?.isSome

/-- Two numbers, or two texts. -/
inductive Comparable : Value → Value → Prop
  | numbers {v w : Value} (hv : v.isNumber = true) (hw : w.isNumber = true) : Comparable v w
  | texts (s t : String) : Comparable (.str s) (.str t)

section Numbers

variable {p q : Extended}

theorem number_cases (h : v.number? = some p) :
    (∃ n, v = .int n ∧ p = .ofInt n) ∨ ∃ x, v = .float x ∧ p = .ofFloat x := by
  rcases v with (_ | _ | n | x | _ | _ | _ | _) | _ | _ | _ | _ <;> cases h
  case scalar.int => exact .inl ⟨n,rfl,rfl⟩
  case scalar.float => exact .inr ⟨x,rfl,rfl⟩

theorem compare?_of_numbers (hv : v.number? = some p) (hw : w.number? = some q) :
    v.compare? w = some ⟨p.less q,p.same q,q.less p⟩ ∧ v.same w = p.same q := by
  obtain ⟨n,rfl,rfl⟩ | ⟨x,rfl,rfl⟩ := number_cases hv <;>
    obtain ⟨m,rfl,rfl⟩ | ⟨y,rfl,rfl⟩ := number_cases hw <;> exact ⟨rfl,rfl⟩

theorem compare?_of_not_comparable (h : ¬ Comparable v w) : v.compare? w = none := by
  unfold compare?
  split
  · exact absurd (.texts _ _) h
  · split
    · next hv hw =>
      exact absurd (.numbers (Option.isSome_of_eq_some hv) (Option.isSome_of_eq_some hw)) h
    · rfl

end Numbers

theorem exactValue?_of_number? {p : Extended} (h : v.number? = some p) :
    v.exactValue? = p.line? := by
  rw [exactValue?_eq,h,Option.bind_some]

theorem same_iff_of_numbers (hv : v.isNumber = true) (hw : w.isNumber = true) :
    v.same w = true ↔ ∃ a, v.exactValue? = some a ∧ w.exactValue? = some a := by
  obtain ⟨p,hp⟩ := Option.isSome_iff_exists.mp hv
  obtain ⟨q,hq⟩ := Option.isSome_iff_exists.mp hw
  rw [(compare?_of_numbers hp hq).2,exactValue?_of_number? hp,exactValue?_of_number? hq]
  exact Extended.same_iff_line?

theorem lessThan_iff_of_numbers (hv : v.isNumber = true) (hw : w.isNumber = true) :
    v.lessThan w = true ↔ ∃ a b, v.exactValue? = some a ∧ w.exactValue? = some b ∧ a < b := by
  obtain ⟨p,hp⟩ := Option.isSome_iff_exists.mp hv
  obtain ⟨q,hq⟩ := Option.isSome_iff_exists.mp hw
  rw [lessThan,(compare?_of_numbers hp hq).1,exactValue?_of_number? hp,exactValue?_of_number? hq]
  exact Extended.less_iff_line?

theorem lessThan_str (s t : String) : lessThan (.str s) (.str t) = true ↔ s < t :=
  decide_eq_true_iff

theorem holds_of_not_comparable (h : ¬ Comparable v w) (o : OrderTest) : o.holds v w = false := by
  have hnone := compare?_of_not_comparable h
  cases o <;> simp only [OrderTest.holds,lessThan,atMost,moreThan,atLeast,hnone] <;> rfl

theorem comparable_of_lessThan (h : v.lessThan w = true) : Comparable v w := by
  by_contra hno
  rw [show v.lessThan w = false from holds_of_not_comparable hno .less] at h
  contradiction

theorem lessThan_trans (h : u.lessThan v = true) (h' : v.lessThan w = true) :
    u.lessThan w = true := by
  cases comparable_of_lessThan h with
  | numbers hu hv =>
    cases comparable_of_lessThan h' with
    | numbers _ hw =>
      obtain ⟨a,b,ha,hb,hab⟩ := (lessThan_iff_of_numbers hu hv).mp h
      obtain ⟨b',c,hb',hc,hbc⟩ := (lessThan_iff_of_numbers hv hw).mp h'
      obtain rfl := Option.some.inj (hb.symm.trans hb')
      exact (lessThan_iff_of_numbers hu hw).mpr ⟨a,c,ha,hc,hab.trans hbc⟩
    | texts s t => cases hv
  | texts r s =>
    cases comparable_of_lessThan h' with
    | numbers hs _ => cases hs
    | texts _ t =>
      rw [lessThan_str] at h h' ⊢
      exact h.trans h'

/-- The comparison of what can be compared has equality and the order both ways for its parts. -/
theorem Comparable.exists_comparison (h : Comparable v w) :
    ∃ c, v.compare? w = some c ∧ c.same = v.same w ∧ c.greater = w.lessThan v := by
  cases h with
  | numbers hv hw =>
    obtain ⟨p,hp⟩ := Option.isSome_iff_exists.mp hv
    obtain ⟨q,hq⟩ := Option.isSome_iff_exists.mp hw
    obtain ⟨hcompare,hsame⟩ := compare?_of_numbers hp hq
    refine ⟨_,hcompare,hsame.symm,?_⟩
    rw [lessThan,(compare?_of_numbers hq hp).1]
    rfl
  | texts s t => exact ⟨_,rfl,rfl,rfl⟩

theorem Comparable.tests (h : Comparable v w) :
    v.atMost w = (v.lessThan w || v.same w) ∧ v.atLeast w = (v.moreThan w || v.same w) ∧
      v.moreThan w = w.lessThan v := by
  obtain ⟨c,hcompare,hsame,hgreater⟩ := h.exists_comparison
  rw [← hsame,← hgreater,atMost,atLeast,lessThan,moreThan,hcompare]
  exact ⟨rfl,rfl,rfl⟩

theorem exists_exactValue (hv : v.isNumber = true) (hnan : ¬ v.HasNan) :
    ∃ a, v.exactValue? = some a := by
  obtain ⟨p,hp⟩ := Option.isSome_iff_exists.mp hv
  rw [exactValue?_of_number? hp]
  have hne : p ≠ .nan := by
    rintro rfl
    obtain ⟨n,-,h⟩ | ⟨x,rfl,h⟩ := number_cases hp
    · cases h
    · exact hnan (.float ((Extended.ofFloat_eq_nan_iff x).mp h.symm))
  cases p with
  | nan => exact absurd rfl hne
  | bottom | fin _ | top => exact ⟨_,rfl⟩

theorem Comparable.count_eq_one (h : Comparable v w) (hv : ¬ v.HasNan) (hw : ¬ w.HasNan) :
    [v.lessThan w,v.same w,v.moreThan w].count true = 1 := by
  rw [h.tests.2.2]
  cases h with
  | numbers hv' hw' =>
    obtain ⟨a,ha⟩ := exists_exactValue hv' hv
    obtain ⟨b,hb⟩ := exists_exactValue hw' hw
    have hless : v.lessThan w = decide (a < b) := by
      rw [Bool.eq_iff_iff,lessThan_iff_of_numbers hv' hw',ha,hb]
      simp
    have hsame : v.same w = decide (a = b) := by
      rw [Bool.eq_iff_iff,same_iff_of_numbers hv' hw',ha,hb]
      simp [eq_comm]
    have hmore : w.lessThan v = decide (b < a) := by
      rw [Bool.eq_iff_iff,lessThan_iff_of_numbers hw' hv',ha,hb]
      simp
    rw [hless,hsame,hmore]
    exact count_trichotomy a b
  | texts s t => exact count_trichotomy s t

/-- Plain values. Equality is symmetric and transitive, and a value equals itself unless there is a
number within that is none. Equal values have the same truth values at the same places, and numbers
of the same exact value; two numbers are equal if they have one and the same, and less if a smaller
one. Less is transitive, for two numbers or two texts it goes with the other tests of order and with
equality, and of less, equal and more there is one that holds of them, unless there is a number that
is none. Nothing else meets any test of order. -/
theorem equality_and_order_are_coherent (hu : u.Plain) (hv : v.Plain) (hw : w.Plain) :
    v.same w = w.same v ∧
    (u.same v = true → v.same w = true → u.same w = true) ∧
    (v.same v = true ↔ ¬ v.HasNan) ∧
    (v.same w = true → ∀ place,
      (∀ b, v.at? place = some (.bool b) ↔ w.at? place = some (.bool b)) ∧
      (v.at? place).bind exactValue? = (w.at? place).bind exactValue?) ∧
    (v.isNumber = true → w.isNumber = true →
      (v.same w = true ↔ ∃ a, v.exactValue? = some a ∧ w.exactValue? = some a) ∧
      (v.lessThan w = true ↔ ∃ a b, v.exactValue? = some a ∧ w.exactValue? = some b ∧ a < b)) ∧
    (u.lessThan v = true → v.lessThan w = true → u.lessThan w = true) ∧
    (Comparable v w →
      (v.atMost w = (v.lessThan w || v.same w) ∧ v.atLeast w = (v.moreThan w || v.same w) ∧
        v.moreThan w = w.lessThan v) ∧
      (¬ v.HasNan → ¬ w.HasNan → [v.lessThan w,v.same w,v.moreThan w].count true = 1)) ∧
    (¬ Comparable v w → ∀ o : OrderTest, o.holds v w = false) := by
  refine ⟨?_,hu.proper.trans,hv.same_self_iff,fun h place => ?_,fun hv hw => ?_,lessThan_trans,
    fun h => ⟨h.tests,h.count_eq_one⟩,holds_of_not_comparable⟩
  · exact Bool.eq_iff_iff.mpr ⟨fun h => (hv.proper.symm h).2,fun h => (hw.proper.symm h).2⟩
  · have hequal := Equal.of_same hv.proper h
    exact ⟨hequal.bool_at? place,hequal.exactValue?_at? place⟩
  · exact ⟨same_iff_of_numbers hv hw,lessThan_iff_of_numbers hv hw⟩

/-- Two to the 53rd is one number as an integer and as a double. It is less than the next integer,
which no double is, and nothing besides. -/
theorem next_integer_is_above_double :
    let double := Value.float 9007199254740992.0
    let next := Value.int 9007199254740993
    same (.int 9007199254740992) double = true ∧ ¬ double.HasNan ∧
      double.lessThan next = true ∧ double.same next = false ∧ double.moreThan next = false := by
  intro double next
  have hself : double.same double = true := by decide +kernel
  have hless : double.lessThan next = true := by decide +kernel
  obtain ⟨-,-,hnan,-,-,-,hcomparable,-⟩ := equality_and_order_are_coherent
    (.int 9007199254740992) (.float 9007199254740992.0) (.int 9007199254740993)
  have hcount : [double.lessThan next,double.same next,double.moreThan next].count true = 1 :=
    (hcomparable (.numbers rfl rfl)).2 (hnan.mp hself) nofun
  rw [hless,List.count_cons_self,Nat.succ.injEq,List.count_eq_zero,List.mem_cons,
    List.mem_singleton,not_or] at hcount
  exact ⟨by decide +kernel,hnan.mp hself,hless,Bool.eq_false_iff.mpr (Ne.symm hcount.1),
    Bool.eq_false_iff.mpr (Ne.symm hcount.2)⟩

end Value
end FlagEngine
