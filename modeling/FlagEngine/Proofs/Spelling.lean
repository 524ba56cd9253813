import FlagEngine.Condition.Reader
import FlagEngine.Proofs.Agreement
import FlagEngine.Proofs.Equality

/-! Numbers that are written in two ways. Equal attributes have the same subjects, and every test
but that of a version finds the same in them; a version is read off the digits as they are written,
so that an integer and a double at one place may be two versions. A condition discerns two
attributes where a test of a version within it meets that and answers differently; nothing else of
an evaluation depends on how numbers are written. -/
namespace FlagEngine

namespace Value.Equal

variable {v w : Value}

/-- Subjects and searched texts know numbers by their place. -/
theorem texts (h : v.Equal w) : v.hashText? = w.hashText? ∧ v.searchText? = w.searchText? := by
  cases h.matched with
  | scalar hab =>
    cases hab with
    | refl a => exact ⟨rfl,rfl⟩
    | intFloat hp => exact ⟨Number.written?_of_place hp,Number.written?_of_place hp⟩
    | floatInt hp => exact ⟨(Number.written?_of_place hp).symm,(Number.written?_of_place hp).symm⟩
    | floats hp =>
      have htext := congrArg some (Number.plainText_congr hp)
      exact ⟨htext,htext⟩
    | moments s t => exact ⟨rfl,rfl⟩
  | _ => exact ⟨rfl,rfl⟩

theorem isOverlong (h : v.Equal w) : v.isOverlong = w.isOverlong := by
  cases h.matched with
  | scalar hab =>
    cases hab with
    | intFloat hp => exact Number.not_isOverlong_of_place hp
    | floatInt hp => exact (Number.not_isOverlong_of_place hp).symm
    | _ => rfl
  | _ => rfl

/-- Equal attributes have the same subjects, and are asked for them alike. -/
theorem sameSubject (h : v.Equal w) (name : String) : v.SameSubject w name := by
  have hrel := h.field name
  constructor
  · unfold overlongAt
    generalize v.field? name = x? at hrel ⊢
    generalize w.field? name = y? at hrel ⊢
    cases hrel with
    | none => rfl
    | some hxy => exact hxy.isOverlong
  · unfold Value.subject?
    generalize v.field? name = x? at hrel ⊢
    generalize w.field? name = y? at hrel ⊢
    cases hrel with
    | none => rfl
    | some hxy => exact hxy.texts.1

theorem typeName (h : v.Equal w) : v.typeName = w.typeName := by
  cases h.matched with
  | scalar hab => cases hab <;> rfl
  | _ => rfl

theorem compare? (h : v.Equal w) (u : Value) : v.compare? u = w.compare? u := by
  cases h.matched with
  | scalar hab =>
    cases hab with
    | refl a => rfl
    | intFloat hp => simp only [Value.compare?,number?,hp]
    | floatInt hp => simp only [Value.compare?,number?,hp]
    | floats hp => simp only [Value.compare?,number?,(Extended.same_iff.mp hp).1]
    | moments s t => rfl
  | _ => rfl

theorem holds_order (h : v.Equal w) (o : OrderTest) (u : Value) : o.holds v u = o.holds w u := by
  cases o <;> simp only [OrderTest.holds,lessThan,atMost,moreThan,atLeast,h.compare? u]

end Value.Equal

/-- Lists that are paired off have the same members that pass, if paired members pass alike. -/
theorem any_eq_of_zip {α β : Type} {R : α → β → Prop} {xs : List α} {ys : List β}
    (h : List.Forall₂ R xs ys) {f : α → Bool} {g : β → Bool}
    (hfg : ∀ p ∈ xs.zip ys, R p.1 p.2 → f p.1 = g p.2) : xs.any f = ys.any g := by
  induction h with
  | nil => rfl
  | @cons x y xs ys hxy _ ih =>
    simp only [List.zip_cons_cons,List.forall_mem_cons] at hfg
    rw [List.any_cons,List.any_cons,hfg.1 hxy,ih hfg.2]

theorem anyUntil_eq_of_zip {α β : Type} {R : α → β → Prop} {xs : List α} {ys : List β}
    (h : List.Forall₂ R xs ys) {settles f : α → Bool} {settles' g : β → Bool}
    (hfg : ∀ p ∈ xs.zip ys, R p.1 p.2 → settles p.1 = settles' p.2 ∧ f p.1 = g p.2) :
    anyUntil settles f xs = anyUntil settles' g ys := by
  induction h with
  | nil => rfl
  | @cons x y xs ys hxy _ ih =>
    simp only [List.zip_cons_cons,List.forall_mem_cons] at hfg
    obtain ⟨hsettles,hf⟩ := hfg.1 hxy
    rw [anyUntil,anyUntil,hsettles,hf,ih hfg.2]

theorem Value.Equal.isAmong {v w : Value} (h : v.Equal w) (candidates : List Value) :
    v.isAmong candidates = w.isAmong candidates := by
  have hany : ∀ {x y : Value}, x.Equal y → candidates.any x.same = candidates.any y.same := by
    intro x y hxy
    exact congrArg candidates.any (funext hxy.same_eq)
  cases h.matched with
  | list hxs => exact any_eq_of_zip hxs fun p _ hp => hany hp
  | _ => exact hany h

mutual
/-- A test of a version within meets an integer on one side and a double on the other, and tells
them apart. -/
inductive ValueTest.Discerns : ValueTest → Value → Value → Prop
  | operators {os : List Operator} {o : Operator} {v w : Value} (ho : o ∈ os)
      (h : o.Discerns v w) : ValueTest.Discerns (.operators os) v w
inductive Operator.Discerns : Operator → Value → Value → Prop
  | intFloat {r : VersionRelation} {t : String} {n : Int} {x : Float}
      (h : r.holds (Version.padded (Number.intText n)) t ≠
        r.holds (Version.padded (Number.floatText x)) t) :
      Operator.Discerns (.version r (some t)) (.int n) (.float x)
  | floatInt {r : VersionRelation} {t : String} {x : Float} {n : Int}
      (h : r.holds (Version.padded (Number.floatText x)) t ≠
        r.holds (Version.padded (Number.intText n)) t) :
      Operator.Discerns (.version r (some t)) (.float x) (.int n)
  | not {t : ValueTest} {v w : Value} (h : t.Discerns v w) : Operator.Discerns (.not t) v w
  | every {ts : List ValueTest} {t : ValueTest} {xs ys : List Value} {p : Value × Value}
      (ht : t ∈ ts) (hp : p ∈ xs.zip ys) (h : t.Discerns p.1 p.2) :
      Operator.Discerns (.every (some ts)) (.list xs) (.list ys)
  | someValue {t : ValueTest} {xs ys : List Value} {p : Value × Value} (hp : p ∈ xs.zip ys)
      (h : t.Discerns p.1 p.2) : Operator.Discerns (.someValue t) (.list xs) (.list ys)
  | someItem {c : Condition} {xs ys : List Value} {p : Value × Value} (hp : p ∈ xs.zip ys)
      (h : c.Discerns p.1 p.2) : Operator.Discerns (.someItem c) (.list xs) (.list ys)
inductive Condition.Discerns : Condition → Value → Value → Prop
  | allOf {cs : List Condition} {c : Condition} {a b : Value} (hc : c ∈ cs) (h : c.Discerns a b) :
      Condition.Discerns (.allOf cs) a b
  | anyOf {cs : List Condition} {c : Condition} {a b : Value} (hc : c ∈ cs) (h : c.Discerns a b) :
      Condition.Discerns (.anyOf cs) a b
  | not {c : Condition} {a b : Value} (h : c.Discerns a b) : Condition.Discerns (.not c) a b
  | field {name : String} {path : List String} {t : ValueTest} {a b v w : Value}
      (hv : a.lookup (name :: path) = some v) (hw : b.lookup (name :: path) = some w)
      (h : t.Discerns v w) : Condition.Discerns (.field name path t) a b
end

theorem Value.version?_int {n : Int} (h : (Value.int n).isOverlong = false) :
    (Value.int n).version? = some (Version.padded (Number.intText n)) := by
  have hwritten : Number.written? n = some (Number.intText n) := if_neg (Bool.eq_false_iff.mp h)
  simp [version?,hwritten]

/-- A single test of a version: what it says of equal values differs only if it discerns them. -/
theorem Operator.holds_version_eq {r : VersionRelation} {t : String} {v w : Value}
    (he : v.Equal w) (h : ¬ (Operator.version r (some t)).Discerns v w) :
    (Operator.version r (some t)).holds (some v) = (Operator.version r (some t)).holds (some w) := by
  simp only [Operator.holds]
  cases he.matched with
  | scalar hab =>
    cases hab with
    | refl a => rfl
    | intFloat _ =>
      rw [Value.version?_int he.isOverlong]
      by_contra hne
      exact h (.intFloat hne)
    | floatInt _ =>
      rw [Value.version?_int he.isOverlong.symm]
      by_contra hne
      exact h (.floatInt hne)
    | floats hxy => simp only [Value.version?,Option.any_some,Number.padded_floatText_congr hxy]
    | moments s t => rfl
  | _ => rfl

/-! What does not discern equal values holds of both or of neither. The recursion is that of
`Operator.holds`: tests of one value go by what equal values share, the others by their parts, and
the test of a version is the one that has to be asked. -/
mutual
theorem ValueTest.holds_eq : (t : ValueTest) → {v w : Value} → v.Equal w → ¬ t.Discerns v w →
    t.holds (some v) = t.holds (some w)
  | .literal u, v, w, he, _ => by simp only [ValueTest.holds,Option.any_some,he.same_eq]
  | .operators os, v, w, he, h => by
    rw [ValueTest.holds,ValueTest.holds]
    exact Operator.allHold_eq os he fun o ho ho' => h (.operators ho ho')
theorem Operator.allHold_eq : (os : List Operator) → {v w : Value} → v.Equal w →
    (∀ o ∈ os, ¬ o.Discerns v w) → Operator.allHold os (some v) = Operator.allHold os (some w)
  | [], v, w, _, _ => rfl
  | o :: os, v, w, he, h => by
    obtain ⟨ho,hos⟩ := List.forall_mem_cons.mp h
    rw [Operator.allHold,Operator.allHold,Operator.holds_eq o he ho,Operator.allHold_eq os he hos]
theorem Operator.holds_eq : (o : Operator) → {v w : Value} → v.Equal w → ¬ o.Discerns v w →
    o.holds (some v) = o.holds (some w)
  | .present _, v, w, _, _ => rfl
  | .equal neg u, v, w, he, _ => by simp only [Operator.holds,he.same_eq]
  | .order o u, v, w, he, _ => by simp only [Operator.holds,he.holds_order]
  | .among neg none, v, w, _, _ => rfl
  | .among neg (some us), v, w, he, _ => by simp only [Operator.holds,he.isAmong]
  | .pattern _ none, v, w, _, _ => rfl
  | .pattern _ (some node), v, w, he, _ => by simp only [Operator.holds,he.texts.2]
  | .kind u, v, w, he, _ => by simp only [Operator.holds,he.typeName]
  | .not t, v, w, he, h => by
    rw [Operator.holds,Operator.holds,ValueTest.holds_eq t he fun ht => h (.not ht)]
  | .size t, v, w, he, _ => by
    cases he.matched with
    | list hxs => simp only [Operator.holds,hxs.length_eq]
    | _ => rfl
  | .every none, v, w, he, _ => by cases he.matched <;> rfl
  | .every (some ts), v, w, he, h => by
    cases he.matched with
    | list hxs =>
      exact ValueTest.allMet_eq ts hxs fun t ht p hp hd => h (.every ht hp hd)
    | _ => rfl
  | .someValue t, v, w, he, h => by
    cases he.matched with
    | list hxs =>
      exact any_eq_of_zip hxs fun p hp hxy =>
        ValueTest.holds_eq t hxy fun hd => h (.someValue hp hd)
    | _ => rfl
  | .someItem c, v, w, he, h => by
    cases he.matched with
    | list hxs =>
      exact any_eq_of_zip hxs fun p hp hxy =>
        Condition.holds_eq c hxy fun hd => h (.someItem hp hd)
    | _ => rfl
  | .version r none, v, w, _, _ => rfl
  | .version r (some t), v, w, he, h => Operator.holds_version_eq he h
theorem ValueTest.allMet_eq : (ts : List ValueTest) → {xs ys : List Value} →
    List.Forall₂ Value.Equal xs ys → (∀ t ∈ ts, ∀ p ∈ xs.zip ys, ¬ t.Discerns p.1 p.2) →
    ValueTest.allMet ts xs = ValueTest.allMet ts ys
  | [], xs, ys, _, _ => rfl
  | t :: ts, xs, ys, he, h => by
    obtain ⟨ht,hts⟩ := List.forall_mem_cons.mp h
    have hany : (xs.any fun x => t.holds (some x)) = ys.any fun y => t.holds (some y) :=
      any_eq_of_zip he fun p hp hxy => ValueTest.holds_eq t hxy (ht p hp)
    rw [ValueTest.allMet,ValueTest.allMet,hany,ValueTest.allMet_eq ts he hts]
theorem Condition.holds_eq : (c : Condition) → {a b : Value} → a.Equal b → ¬ c.Discerns a b →
    c.holds a = c.holds b
  | .allOf cs, a, b, he, h => by
    rw [Condition.holds,Condition.holds]
    exact Condition.allHold_eq cs he fun c hc hc' => h (.allOf hc hc')
  | .anyOf cs, a, b, he, h => by
    rw [Condition.holds,Condition.holds,
      Condition.anyHolds_eq cs he fun c hc hc' => h (.anyOf hc hc')]
  | .not c, a, b, he, h => by
    rw [Condition.holds,Condition.holds,Condition.holds_eq c he fun hc => h (.not hc)]
  | .field name path t, a, b, he, h => by
    rw [Condition.holds,Condition.holds]
    have hrel := he.lookup (name :: path)
    generalize hv : a.lookup (name :: path) = v? at hrel
    generalize hw : b.lookup (name :: path) = w? at hrel
    cases hrel with
    | none => rfl
    | some hvw => exact ValueTest.holds_eq t hvw fun hd => h (.field hv hw hd)
theorem Condition.allHold_eq : (cs : List Condition) → {a b : Value} → a.Equal b →
    (∀ c ∈ cs, ¬ c.Discerns a b) → Condition.allHold cs a = Condition.allHold cs b
  | [], a, b, _, _ => rfl
  | c :: cs, a, b, he, h => by
    obtain ⟨hc,hcs⟩ := List.forall_mem_cons.mp h
    rw [Condition.allHold,Condition.allHold,Condition.holds_eq c he hc,
      Condition.allHold_eq cs he hcs]
theorem Condition.anyHolds_eq : (cs : List Condition) → {a b : Value} → a.Equal b →
    (∀ c ∈ cs, ¬ c.Discerns a b) → Condition.anyHolds cs a = Condition.anyHolds cs b
  | [], a, b, _, _ => rfl
  | c :: cs, a, b, he, h => by
    obtain ⟨hc,hcs⟩ := List.forall_mem_cons.mp h
    rw [Condition.anyHolds,Condition.anyHolds,Condition.holds_eq c he hc,
      Condition.anyHolds_eq cs he hcs]
end

/-! Nor does it stumble over one of them only: equal values are both too long to be written or
neither, and a test of the one stops where the test of the other does. -/
mutual
theorem ValueTest.stumbles_eq : (t : ValueTest) → {v w : Value} → v.Equal w → ¬ t.Discerns v w →
    t.stumbles (some v) = t.stumbles (some w)
  | .literal _, _, _, _, _ => rfl
  | .operators os, _, _, he, h => by
    rw [ValueTest.stumbles,ValueTest.stumbles]
    exact Operator.allStumble_eq os he fun o ho ho' => h (.operators ho ho')
theorem Operator.allStumble_eq : (os : List Operator) → {v w : Value} → v.Equal w →
    (∀ o ∈ os, ¬ o.Discerns v w) →
    Operator.allStumble os (some v) = Operator.allStumble os (some w)
  | [], _, _, _, _ => rfl
  | o :: os, _, _, he, h => by
    obtain ⟨ho,hos⟩ := List.forall_mem_cons.mp h
    rw [Operator.allStumble,Operator.allStumble,Operator.stumbles_eq o he ho,
      Operator.holds_eq o he ho,Operator.allStumble_eq os he hos]
theorem Operator.stumbles_eq : (o : Operator) → {v w : Value} → v.Equal w → ¬ o.Discerns v w →
    o.stumbles (some v) = o.stumbles (some w)
  | .present _, _, _, _, _ | .equal _ _, _, _, _, _ | .order _ _, _, _, _, _
  | .among _ _, _, _, _, _ | .kind _, _, _, _, _ | .every none, _, _, _, _ => rfl
  | .pattern _ _, _, _, he, _ => he.isOverlong
  | .version _ _, _, _, he, _ => he.isOverlong
  | .not t, _, _, he, h => by
    rw [Operator.stumbles,Operator.stumbles,ValueTest.stumbles_eq t he fun ht => h (.not ht)]
  | .size t, _, _, he, _ => by
    cases he.matched with
    | list hxs => simp only [Operator.stumbles,hxs.length_eq]
    | _ => rfl
  | .every (some ts), _, _, he, h => by
    cases he.matched with
    | list hxs =>
      exact ValueTest.allStumble_eq ts hxs fun t ht p hp hd => h (.every ht hp hd)
    | _ => rfl
  | .someValue t, _, _, he, h => by
    cases he.matched with
    | list hxs =>
      exact anyUntil_eq_of_zip hxs fun p hp hxy =>
        have hno := fun hd => h (.someValue hp hd)
        ⟨ValueTest.holds_eq t hxy hno,ValueTest.stumbles_eq t hxy hno⟩
    | _ => rfl
  | .someItem c, _, _, he, h => by
    cases he.matched with
    | list hxs =>
      exact anyUntil_eq_of_zip hxs fun p hp hxy =>
        have hno := fun hd => h (.someItem hp hd)
        ⟨Condition.holds_eq c hxy hno,Condition.stumbles_eq c hxy hno⟩
    | _ => rfl
theorem ValueTest.allStumble_eq : (ts : List ValueTest) → {xs ys : List Value} →
    List.Forall₂ Value.Equal xs ys → (∀ t ∈ ts, ∀ p ∈ xs.zip ys, ¬ t.Discerns p.1 p.2) →
    ValueTest.allStumble ts xs = ValueTest.allStumble ts ys
  | [], _, _, _, _ => rfl
  | t :: ts, xs, ys, he, h => by
    obtain ⟨ht,hts⟩ := List.forall_mem_cons.mp h
    have hany : (xs.any fun x => t.holds (some x)) = ys.any fun y => t.holds (some y) :=
      any_eq_of_zip he fun p hp hxy => ValueTest.holds_eq t hxy (ht p hp)
    have huntil : anyUntil (fun x => t.holds (some x)) (fun x => t.stumbles (some x)) xs =
        anyUntil (fun y => t.holds (some y)) (fun y => t.stumbles (some y)) ys :=
      anyUntil_eq_of_zip he fun p hp hxy =>
        ⟨ValueTest.holds_eq t hxy (ht p hp),ValueTest.stumbles_eq t hxy (ht p hp)⟩
    rw [ValueTest.allStumble,ValueTest.allStumble,hany,huntil,ValueTest.allStumble_eq ts he hts]
theorem Condition.stumbles_eq : (c : Condition) → {a b : Value} → a.Equal b → ¬ c.Discerns a b →
    c.stumbles a = c.stumbles b
  | .allOf cs, _, _, he, h => by
    rw [Condition.stumbles,Condition.stumbles]
    exact Condition.allStumble_eq cs he fun c hc hc' => h (.allOf hc hc')
  | .anyOf cs, _, _, he, h => by
    rw [Condition.stumbles,Condition.stumbles]
    exact Condition.anyStumbles_eq cs he fun c hc hc' => h (.anyOf hc hc')
  | .not c, _, _, he, h => by
    rw [Condition.stumbles,Condition.stumbles,Condition.stumbles_eq c he fun hc => h (.not hc)]
  | .field name path t, a, b, he, h => by
    rw [Condition.stumbles,Condition.stumbles]
    have hrel := he.lookup (name :: path)
    generalize hv : a.lookup (name :: path) = v? at hrel
    generalize hw : b.lookup (name :: path) = w? at hrel
    cases hrel with
    | none => rfl
    | some hvw => exact ValueTest.stumbles_eq t hvw fun hd => h (.field hv hw hd)
theorem Condition.allStumble_eq : (cs : List Condition) → {a b : Value} → a.Equal b →
    (∀ c ∈ cs, ¬ c.Discerns a b) → Condition.allStumble cs a = Condition.allStumble cs b
  | [], _, _, _, _ => rfl
  | c :: cs, _, _, he, h => by
    obtain ⟨hc,hcs⟩ := List.forall_mem_cons.mp h
    rw [Condition.allStumble,Condition.allStumble,Condition.stumbles_eq c he hc,
      Condition.holds_eq c he hc,Condition.allStumble_eq cs he hcs]
theorem Condition.anyStumbles_eq : (cs : List Condition) → {a b : Value} → a.Equal b →
    (∀ c ∈ cs, ¬ c.Discerns a b) → Condition.anyStumbles cs a = Condition.anyStumbles cs b
  | [], _, _, _, _ => rfl
  | c :: cs, _, _, he, h => by
    obtain ⟨hc,hcs⟩ := List.forall_mem_cons.mp h
    rw [Condition.anyStumbles,Condition.anyStumbles,Condition.stumbles_eq c he hc,
      Condition.holds_eq c he hc,Condition.anyStumbles_eq cs he hcs]
end

theorem Condition.test_eq (c : Condition) {a b : Value} (he : a.Equal b) (h : ¬ c.Discerns a b) :
    c.test a = c.test b := by
  rw [test,test,Condition.stumbles_eq c he h,Condition.holds_eq c he h]

/-- The test of one field against one version. -/
def Condition.versionTest (name : String) (path : List String) (r : VersionRelation) (t : String) :
    Condition :=
  .field name path (.operators [.version r (some t)])

theorem Condition.versionTest_discerns_iff {a b : Value} (he : a.Equal b) (name : String)
    (path : List String) (r : VersionRelation) (t : String) :
    (versionTest name path r t).Discerns a b ↔
      (versionTest name path r t).holds a ≠ (versionTest name path r t).holds b := by
  constructor
  · rintro (_ | _ | _ | @⟨_,_,_,_,_,v,w,hv,hw,⟨ho,hd⟩⟩)
    obtain rfl := List.mem_singleton.mp ho
    have hone : ∀ v : Value, Operator.allHold [.version r (some t)] (some v) =
        v.version?.any fun s => r.holds s t := fun v => Bool.and_true _
    simp only [versionTest,Condition.holds,hv,hw,ValueTest.holds,hone]
    have hvw : v.Equal w := by
      have hrel := he.lookup (name :: path)
      rw [hv,hw] at hrel
      cases hrel with
      | some hvw => exact hvw
    cases hd with
    | intFloat hne => rwa [Value.version?_int hvw.isOverlong]
    | floatInt hne => rwa [Value.version?_int hvw.isOverlong.symm]
  · intro hne
    by_contra hno
    exact hne (Condition.holds_eq _ he hno)

variable {ν σ : Type} [Fraction ν] {a b : Value}

theorem Filter.equates_of_equal (fs : List (Filter ν)) (h : a.Equal b) :
    Filter.Equates fs a b := by
  have hadmits : ∀ f : Filter ν, f.admits a = f.admits b := fun f => by
    simp only [admits,(h.sameSubject f.hashAttribute).subject]
  refine ⟨?_,by simp only [keepsOut,hadmits]⟩
  induction fs with
  | nil => rfl
  | cons f fs ih => simp only [stumble,(h.sameSubject f.hashAttribute).overlong,hadmits,ih]

theorem Experiment.sameAnswer_of_equal {c? : Option Condition} (h : a.Equal b)
    (hc : ∀ c ∈ c?, ¬ c.Discerns a b) : SameAnswer c? a b := by
  cases c? with
  | none => exact ⟨rfl,rfl⟩
  | some c => exact ⟨Condition.stumbles_eq c h (hc c rfl),Condition.holds_eq c h (hc c rfl)⟩

theorem Experiment.equates_of_equal {e : Experiment ν} (h : a.Equal b)
    (hc : ∀ c ∈ e.condition, ¬ c.Discerns a b) : e.Equates a b :=
  ⟨h.sameSubject _,Filter.equates_of_equal _ h,sameAnswer_of_equal h hc⟩

/-- A rule puts its own condition to the attributes, and that of its experiment. -/
def Rule.Discerns (a b : Value) : Rule ν → Prop
  | .invalid _ => False
  | .when c? (.experiment e) =>
    (∃ c ∈ c?, c.Discerns a b) ∨ ∃ c ∈ e.condition, c.Discerns a b
  | .when c? _ => ∃ c ∈ c?, c.Discerns a b

def Feature.Discerns (a b : Value) (f : Feature ν) : Prop := ∃ r ∈ f.rules, r.Discerns a b

theorem Rule.equates_of_equal {r : Rule ν} (h : a.Equal b) (hr : ¬ r.Discerns a b) :
    r.Equates a b := by
  have hanswer : ∀ c? : Option Condition, (¬ ∃ c ∈ c?, c.Discerns a b) →
      Experiment.SameAnswer c? a b := fun c? hno =>
    Experiment.sameAnswer_of_equal h fun c hc hd => hno ⟨c,hc,hd⟩
  cases r with
  | invalid reason => trivial
  | when c? body =>
    cases body with
    | force value filters => exact ⟨hanswer c? hr,Filter.equates_of_equal filters h⟩
    | rollout b =>
      exact ⟨hanswer c? hr,Filter.equates_of_equal b.filters h,h.sameSubject b.hashAttribute⟩
    | experiment e =>
      refine ⟨hanswer c? fun hd => hr (.inl hd),?_⟩
      exact Experiment.equates_of_equal h fun c hc hd => hr (.inr ⟨c,hc,hd⟩)
    | unknown => exact ⟨hanswer c? hr,trivial⟩

/-- Equal attributes have the same subjects. A condition that holds of only one of them discerns
them, as does one that a test of comes to another end for the other, and a single test of a version
does so just when it discerns them. Where no condition of a feature discerns them, the feature is
decided alike, and the same store and exposures are left. -/
theorem spelling_shows_in_versions_only (ha : a.Proper) (h : a.same b = true) :
    (∀ name, a.subject? name = b.subject? name) ∧
    (∀ c : Condition, c.holds a ≠ c.holds b ∨ c.test a ≠ c.test b → c.Discerns a b) ∧
    (∀ (name : String) (path : List String) (r : VersionRelation) (t : String),
      (Condition.versionTest name path r t).Discerns a b ↔
        (Condition.versionTest name path r t).holds a ≠
          (Condition.versionTest name path r t).holds b) ∧
    ∀ (catalog : Catalog ν) (s : Setting σ) (tracker? : Option Tracker) (key : String)
      (w : World σ), (∀ f ∈ catalog.get? key, ¬ f.Discerns a b) →
        (catalog.evaluate s tracker? key a w).1 = (catalog.evaluate s tracker? key b w).1 ∧
        (catalog.evaluate s tracker? key a w).2.store =
          (catalog.evaluate s tracker? key b w).2.store ∧
        (catalog.evaluate s tracker? key a w).2.exposures =
          (catalog.evaluate s tracker? key b w).2.exposures := by
  have he : a.Equal b := .of_same ha h
  refine ⟨fun name => (he.sameSubject name).subject,fun c hne => ?_,
    Condition.versionTest_discerns_iff he,?_⟩
  · by_contra hno
    exact hne.elim (· (Condition.holds_eq c he hno)) (· (Condition.test_eq c he hno))
  · intro catalog s tracker? key w hf
    have heq : ∀ f ∈ catalog.get? key, f.Equates a b := fun f hget r hr =>
      Rule.equates_of_equal he fun hd => hf f hget ⟨r,hr,hd⟩
    have halike : World.Alike (catalog.evaluate s tracker? key a w)
        (catalog.evaluate s tracker? key b w) := Catalog.evaluate_alike heq s rfl (.refl w)
    exact ⟨halike.1,halike.2.store,halike.2.exposures⟩

/-- Attributes with the number one, as an integer and as a double. -/
def Value.oneAsInt : Value := .map [(.str "v",.int 1)]

def Value.oneAsFloat : Value := .map [(.str "v",.float 1.0)]

theorem Value.proper_oneAsInt : oneAsInt.Proper :=
  .map (by simp [Scalar.Distinct]) (by simpa using .scalar (.int 1))

/-- A catalog whose subjects are known by that number. -/
def Catalog.byNumber : Catalog Rat :=
  ⟨[⟨"banner",.null,[.when none (.experiment
    { Experiment.ofVariations "exp" [.str "a",.str "b"] with hashAttribute := "v" })]⟩]⟩

theorem one_is_one_subject :
    Value.oneAsInt.same Value.oneAsFloat = true ∧
      (Catalog.byNumber.evaluate ⟨some Memory.store,.default⟩ none "banner" Value.oneAsInt
        ⟨[],[],[]⟩).2.store = [(("exp", "1"), 0)] ∧
      (Catalog.byNumber.evaluate ⟨some Memory.store,.default⟩ none "banner" Value.oneAsFloat
        ⟨[],[],[]⟩).2.store = [(("exp", "1"), 0)] := by
  have hsame : Value.oneAsInt.same Value.oneAsFloat = true := by decide +kernel
  obtain ⟨-,-,-,hevaluate⟩ := spelling_shows_in_versions_only (ν := Rat) (σ := Memory)
    Value.proper_oneAsInt hsame
  have hno : ∀ f ∈ Catalog.byNumber.get? "banner",
      ¬ f.Discerns Value.oneAsInt Value.oneAsFloat := by
    rintro f hf ⟨r,hr,hd⟩
    obtain rfl := Option.some.inj hf
    obtain rfl := List.mem_singleton.mp hr
    simp [Rule.Discerns,Experiment.ofVariations] at hd
  obtain ⟨-,hstore,-⟩ := hevaluate Catalog.byNumber ⟨some Memory.store,.default⟩ none "banner"
    ⟨[],[],[]⟩ hno
  have hint : (Catalog.byNumber.evaluate ⟨some Memory.store,.default⟩ none "banner" Value.oneAsInt
      ⟨[],[],[]⟩).2.store = [(("exp", "1"), 0)] := by decide +kernel
  exact ⟨hsame,hint,hstore ▸ hint⟩

/-- The version of an integral double ends in a zero that no other text of it has. -/
theorem version_test_discerns_one :
    ∃ c, Condition.read (.map [(.str "v",.map [(.str "$veq",.str "1")])]) 64 = .ok c ∧
      Value.oneAsInt.Proper ∧ Value.oneAsInt.same Value.oneAsFloat = true ∧
      c.holds Value.oneAsInt = true ∧ c.holds Value.oneAsFloat = false := by
  refine ⟨_,rfl,Value.proper_oneAsInt,?_,?_,?_⟩
  · decide +kernel
  · decide +kernel
  · decide +kernel

end FlagEngine
