import FlagEngine.Resolution
import FlagEngine.Proofs.Equality

/-! Where tests come to an answer. A test goes through its parts in order and stops where its answer
is settled; only an integer that is too long to be written makes it stumble. Of values that hold no
such integer, every test has an answer, every subject is known, and every rule can be tried. -/
namespace FlagEngine

namespace Value

/-- Every integer of the value can be written, and so can the length of each of its lists. -/
inductive Writable : Value → Prop
  | scalar {s : Scalar} (h : (scalar s).isOverlong = false) : Writable (.scalar s)
  | list {xs : List Value} (length : Number.isOverlong xs.length = false)
    (items : ∀ x ∈ xs, x.Writable) : Writable (.list xs)
  | pair {fst snd : Value} (hfst : fst.Writable) (hsnd : snd.Writable) : Writable (.pair fst snd)
  | set {xs : List Scalar} (members : ∀ s ∈ xs, (Value.scalar s).isOverlong = false) :
    Writable (.set xs)
  | map {es : Entries} (values : ∀ e ∈ es, e.2.Writable) : Writable (.map es)

variable {a v : Value}

theorem Writable.obj {fields : List (String × Value)} (h : ∀ f ∈ fields, f.2.Writable) :
    (obj fields).Writable := by
  refine .map fun e he => ?_
  obtain ⟨f,hf,rfl⟩ := List.mem_map.mp he
  exact h f hf

theorem Writable.not_isOverlong (h : v.Writable) : v.isOverlong = false := by
  cases h with
  | scalar h => exact h
  | _ => rfl

theorem Writable.length {xs : List Value} (h : (Value.list xs).Writable) :
    (Value.nat xs.length).Writable := by
  cases h with
  | list length items => exact .scalar length

theorem Writable.item {xs : List Value} (h : (Value.list xs).Writable) {x : Value} (hx : x ∈ xs) :
    x.Writable := by
  cases h with
  | list length items => exact items x hx

theorem Writable.field? (h : a.Writable) {name : String} (hv : a.field? name = some v) :
    v.Writable := by
  cases h with
  | map values =>
    obtain ⟨e,he,-,rfl⟩ := Entries.exists_of_find? hv
    exact values e he
  | _ => cases hv

theorem Writable.lookup (h : a.Writable) {path : List String} (hv : a.lookup path = some v) :
    v.Writable := by
  induction path generalizing a with
  | nil =>
    rw [lookup_nil] at hv
    obtain rfl := Option.some.inj hv
    exact h
  | cons name path ih =>
    rw [Value.lookup] at hv
    obtain ⟨w,hw,hv⟩ := Option.bind_eq_some_iff.mp hv
    exact ih (h.field? hw) hv

theorem Writable.not_overlongAt (h : a.Writable) (name : String) : a.overlongAt name = false := by
  unfold overlongAt
  cases hv : a.field? name with
  | none => rfl
  | some v => exact (h.field? hv).not_isOverlong

end Value

theorem anyUntil_eq_false {α : Type} (settles : α → Bool) {f : α → Bool} {xs : List α}
    (h : ∀ x ∈ xs, f x = false) : anyUntil settles f xs = false := by
  induction xs with
  | nil => rfl
  | cons x xs ih =>
    obtain ⟨hx,hxs⟩ := List.forall_mem_cons.mp h
    simp only [anyUntil,hx,ih hxs,Bool.and_false,Bool.or_false]

/-! Where all there is to test can be written nothing stumbles, by the constructors of a test. -/
mutual
theorem ValueTest.stumbles_of_writable : (t : ValueTest) → {v? : Option Value} →
    (∀ v ∈ v?, v.Writable) → t.stumbles v? = false
  | .literal _, _, _ => rfl
  | .operators os, _, h => Operator.allStumble_of_writable os h
theorem Operator.allStumble_of_writable : (os : List Operator) → {v? : Option Value} →
    (∀ v ∈ v?, v.Writable) → Operator.allStumble os v? = false
  | [], _, _ => rfl
  | o :: os, v?, h => by
    simp only [Operator.allStumble,Operator.stumbles_of_writable o h,
      Operator.allStumble_of_writable os h,Bool.and_false,Bool.or_false]
theorem Operator.stumbles_of_writable : (o : Operator) → {v? : Option Value} →
    (∀ v ∈ v?, v.Writable) → o.stumbles v? = false
  | o, none, _ => by cases o <;> rfl
  | .pattern _ _, some v, h => (h v rfl).not_isOverlong
  | .version _ _, some v, h => (h v rfl).not_isOverlong
  | .not t, some v, h => ValueTest.stumbles_of_writable t h
  | .size t, some v, h => by
    cases v with
    | list xs =>
      exact ValueTest.stumbles_of_writable t fun v hv => Option.some.inj hv ▸ (h _ rfl).length
    | _ => rfl
  | .every (some ts), some v, h => by
    cases v with
    | list xs => exact ValueTest.allStumble_of_writable ts fun x hx => (h _ rfl).item hx
    | _ => rfl
  | .someValue t, some v, h => by
    cases v with
    | list xs =>
      exact anyUntil_eq_false _ fun x hx => ValueTest.stumbles_of_writable t fun v hv =>
        Option.some.inj hv ▸ (h _ rfl).item hx
    | _ => rfl
  | .someItem c, some v, h => by
    cases v with
    | list xs =>
      exact anyUntil_eq_false _ fun x hx => Condition.stumbles_of_writable c ((h _ rfl).item hx)
    | _ => rfl
  | .present _, some _, _ | .equal _ _, some _, _ | .order _ _, some _, _ | .among _ _, some _, _
  | .kind _, some _, _ | .every none, some _, _ => rfl
theorem ValueTest.allStumble_of_writable : (ts : List ValueTest) → {xs : List Value} →
    (∀ x ∈ xs, x.Writable) → ValueTest.allStumble ts xs = false
  | [], _, _ => rfl
  | t :: ts, xs, h => by
    have hitems : anyUntil (fun x => t.holds (some x)) (fun x => t.stumbles (some x)) xs = false :=
      anyUntil_eq_false _ fun x hx => ValueTest.stumbles_of_writable t fun v hv =>
        Option.some.inj hv ▸ h x hx
    simp only [ValueTest.allStumble,hitems,ValueTest.allStumble_of_writable ts h,Bool.and_false,
      Bool.or_false]
theorem Condition.stumbles_of_writable : (c : Condition) → {a : Value} → a.Writable →
    c.stumbles a = false
  | .allOf cs, _, h => Condition.allStumble_of_writable cs h
  | .anyOf cs, _, h => Condition.anyStumbles_of_writable cs h
  | .not c, _, h => Condition.stumbles_of_writable c h
  | .field _ _ t, _, h => ValueTest.stumbles_of_writable t fun _ hv => h.lookup hv
theorem Condition.allStumble_of_writable : (cs : List Condition) → {a : Value} → a.Writable →
    Condition.allStumble cs a = false
  | [], _, _ => rfl
  | c :: cs, a, h => by
    simp only [Condition.allStumble,Condition.stumbles_of_writable c h,
      Condition.allStumble_of_writable cs h,Bool.and_false,Bool.or_false]
theorem Condition.anyStumbles_of_writable : (cs : List Condition) → {a : Value} → a.Writable →
    Condition.anyStumbles cs a = false
  | [], _, _ => rfl
  | c :: cs, a, h => by
    simp only [Condition.anyStumbles,Condition.stumbles_of_writable c h,
      Condition.anyStumbles_of_writable cs h,Bool.and_false,Bool.or_false]
end

variable {a : Value}

theorem Condition.test_eq_ok_iff (c : Condition) (a : Value) (b : Bool) :
    c.test a = .ok b ↔ c.stumbles a = false ∧ c.holds a = b := by
  unfold test
  cases c.stumbles a <;> simp

theorem Condition.test_of_writable (c : Condition) (h : a.Writable) : c.test a = .ok (c.holds a) :=
  (c.test_eq_ok_iff a _).mpr ⟨c.stumbles_of_writable h,rfl⟩

theorem Experiment.stumbles_of_writable (c? : Option Condition) (h : a.Writable) :
    Experiment.stumbles c? a = false := by
  cases c? with
  | none => rfl
  | some c => exact c.stumbles_of_writable h

variable {ν : Type} [Fraction ν]

theorem Filter.stumble_of_writable (fs : List (Filter ν)) (h : a.Writable) :
    Filter.stumble fs a = false := by
  induction fs with
  | nil => rfl
  | cons f fs ih => simp only [stumble,h.not_overlongAt,ih,Bool.and_false,Bool.or_false]

theorem Rule.stumbles_of_writable (r : Rule ν) (h : a.Writable) : r.stumbles a = false := by
  cases r with
  | invalid reason => rfl
  | when c? body =>
    cases body <;>
      simp [stumbles,RuleBody.stumbles,Experiment.stumbles_of_writable c? h,
        Filter.stumble_of_writable _ h,h.not_overlongAt]

end FlagEngine
