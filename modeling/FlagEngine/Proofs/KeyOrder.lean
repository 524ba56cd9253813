import FlagEngine.Proofs.Answers
import FlagEngine.Proofs.Rearrangement
import FlagEngine.Proofs.Stumbling

/-! The order of keys in documents. A document and its rearrangement are both read or both refused,
and what is read answers alike of attributes and of their rearrangement, although the reader walks
the keys in their order, stops at the first failure, and keeps the first combinator only. -/
namespace FlagEngine

/-- Whether a value can be written does not depend on the order of keys. -/
theorem Value.Rearranged.writable {v w : Value} (h : v.Rearranged w) (hv : v.Writable) :
    w.Writable := by
  induction h with
  | scalar a => exact hv
  | list length _ ih =>
    cases hv with
    | list hlength hitems =>
      refine .list (length ▸ hlength) fun y hy => ?_
      have hpartners := Partnered.of_forall₂ (List.forall₂_iff_zip.mpr ⟨length,fun h => ih _ h⟩)
      obtain ⟨x,hx,hxy⟩ := hpartners.2 y hy
      exact hxy (hitems x hx)
  | pair _ _ ihu ihv =>
    cases hv with
    | pair hfst hsnd => exact .pair (ihu hfst) (ihv hsnd)
  | set order =>
    cases hv with
    | set members => exact .set fun s hs => members s (order.mem_iff.mpr hs)
  | map distinct keys _ order ih =>
    cases hv with
    | map values =>
      refine .map fun e he => ?_
      have hpartners := (Entries.Paired.of_zip (R := fun v w => v.Writable → w.Writable) distinct
        keys ih order).partners
      obtain ⟨d,hd,-,hwritable⟩ := hpartners.2 e he
      exact hwritable (values d hd)

namespace Condition

section Alike

variable {α β γ δ : Type} {r : Except ConditionFailure α} {r' : Except ConditionFailure β}

/-- Both readings fail, or both succeed and what they read gives the same answer. -/
def AnswerAlike (r : Except ConditionFailure α) (ask : α → Bool) (r' : Except ConditionFailure β)
    (ask' : β → Bool) : Prop :=
  ∀ b, Answers r ask b ↔ Answers r' ask' b

variable {ask : α → Bool} {ask' : β → Bool}

theorem AnswerAlike.reads (h : AnswerAlike r ask r' ask') : (∃ x, r = .ok x) ↔ ∃ y, r' = .ok y := by
  constructor
  · rintro ⟨x,hx⟩
    obtain ⟨y,hy,-⟩ := (h (ask x)).mp ⟨x,hx,rfl⟩
    exact ⟨y,hy⟩
  · rintro ⟨y,hy⟩
    obtain ⟨x,hx,-⟩ := (h (ask' y)).mpr ⟨y,hy,rfl⟩
    exact ⟨x,hx⟩

theorem answerAlike_of_reads (hreads : (∃ x, r = .ok x) ↔ ∃ y, r' = .ok y)
    (htrue : Answers r ask true ↔ Answers r' ask' true) : AnswerAlike r ask r' ask' := by
  intro b
  rw [answers_iff r,answers_iff r',hreads,htrue]

theorem answerAlike_ok {x : α} {y : β} (h : ask x = ask' y) :
    AnswerAlike (.ok x) ask (.ok y) ask' := by
  intro b
  rw [answers_ok_iff,answers_ok_iff,h]

theorem answerAlike_of_fails (h : ∀ x, r ≠ .ok x) (h' : ∀ y, r' ≠ .ok y) :
    AnswerAlike r ask r' ask' :=
  fun _ => iff_of_false (fun ⟨x,hx,_⟩ => h x hx) fun ⟨y,hy,_⟩ => h' y hy

theorem answerAlike_error (e e' : ConditionFailure) :
    AnswerAlike (.error e) ask (.error e') ask' :=
  answerAlike_of_fails (fun _ => nofun) fun _ => nofun

theorem AnswerAlike.map {g : γ → α} {g' : δ → β} {s : Except ConditionFailure γ}
    {s' : Except ConditionFailure δ}
    (h : AnswerAlike s (fun x => ask (g x)) s' fun y => ask' (g' y)) :
    AnswerAlike (s.map g) ask (s'.map g') ask' := by
  intro b
  rw [answers_map_iff,answers_map_iff]
  exact h b

theorem AnswerAlike.not (h : AnswerAlike r ask r' ask') :
    AnswerAlike r (fun x => !ask x) r' fun y => !ask' y := by
  intro b
  rw [answers_not_iff,answers_not_iff]
  exact h !b

theorem answerAlike_const (hreads : (∃ x, r = .ok x) ↔ ∃ y, r' = .ok y) (c : Bool) :
    AnswerAlike r (fun _ => c) r' fun _ => c := by
  refine answerAlike_of_reads hreads ?_
  simpa only [Answers,exists_and_right] using and_congr_left fun _ => hreads

variable {R : γ → δ → Prop} {xs : List γ} {ys : List δ}

theorem answerAlike_any {asks : α → γ → Bool} {asks' : β → δ → Bool}
    (hreads : (∃ x, r = .ok x) ↔ ∃ y, r' = .ok y) (hxs : Partnered R xs ys)
    (h : ∀ x y, R x y → AnswerAlike r (asks · x) r' (asks' · y)) :
    AnswerAlike r (fun p => xs.any (asks p)) r' fun q => ys.any (asks' q) := by
  refine answerAlike_of_reads hreads ?_
  rw [answers_any_iff,answers_any_iff]
  exact hxs.exists_congr fun x y hxy => h x y hxy true

variable {f : γ → Except ConditionFailure α} {g : δ → Except ConditionFailure β}
  {refused : α → List String} {refused' : β → List String}

theorem answerAlike_collect_all (hxs : Partnered R xs ys)
    (h : ∀ x y, R x y → AnswerAlike (f x) ask (g y) ask') :
    AnswerAlike (collect f refused xs) (·.all ask) (collect g refused' ys) (·.all ask') := by
  intro b
  rw [answers_collect_all_iff,answers_collect_all_iff,
    hxs.forall_congr fun x y hxy => (h x y hxy).reads,
    hxs.forall_congr fun x y hxy => h x y hxy true]

theorem answerAlike_collect_any (hxs : Partnered R xs ys)
    (h : ∀ x y, R x y → AnswerAlike (f x) ask (g y) ask') :
    AnswerAlike (collect f refused xs) (fun cs => cs.isEmpty || cs.any ask)
      (collect g refused' ys) fun cs => cs.isEmpty || cs.any ask' := by
  intro b
  rw [answers_collect_any_iff,answers_collect_any_iff,
    hxs.forall_congr fun x y hxy => (h x y hxy).reads,
    hxs.exists_congr fun x y hxy => h x y hxy true,hxs.eq_nil_iff]

end Alike

/-- Rearranged values are read alike, for whatever is asked of what was read. -/
def Orderless {α υ : Type} (f : Value → Except ConditionFailure α) (holds : α → υ → Bool)
    (R : υ → υ → Prop) : Prop :=
  ∀ ⦃w w'⦄, w.Rearranged w' → ∀ ⦃x x'⦄, R x x' → AnswerAlike (f w) (holds · x) (f w') (holds · x')

/-- What a path leads to in attributes and in their rearrangement. -/
abbrev Found : Option Value → Option Value → Prop := Option.Rel Value.Rearranged

theorem isOperators_eq {w w' : Value} (h : w.Rearranged w') : isOperators w = isOperators w' := by
  cases h with
  | map distinct keys values order =>
    have hpaired := Entries.Paired.of_zip distinct keys values order
    simp only [isOperators]
    rw [Bool.eq_iff_iff,List.all_eq_true,List.all_eq_true]
    exact hpaired.forall_congr fun _ _ _ _ => Iff.rfl
  | _ => rfl

section Plain

theorem orderless_of_ok {make : Value → Operator}
    (hnone : ∀ w w', (make w).holds none = (make w').holds none)
    (hsome : ∀ w w', w.Rearranged w' → ∀ v v' : Value, v.Rearranged v' →
      (make w).holds (some v) = (make w').holds (some v')) :
    Orderless (fun w => .ok (make w)) Operator.holds Found := by
  intro w w' hw v? v?' hv
  refine answerAlike_ok ?_
  cases hv with
  | none => exact hnone w w'
  | some hv => exact hsome w w' hw _ _ hv

theorem orderless_equal (neg : Bool) :
    Orderless (fun w => .ok (.equal neg w)) Operator.holds Found :=
  orderless_of_ok (fun _ _ => by simp only [Operator.holds]) fun _ _ hw _ _ hv => by
    simp only [Operator.holds,Value.same,hv.sameAs_congr hw]

theorem orderless_among (neg : Bool) :
    Orderless (fun w => .ok (.among neg (items? w))) Operator.holds Found := by
  refine orderless_of_ok (fun _ _ => by simp only [Operator.holds]) fun _ _ hw v v' hv => ?_
  cases hw with
  | list length items =>
    have hws := Value.Rearranged.items_forall₂ (.list length items)
    simp only [items?,Operator.holds,hv.isAmong_eq hws]
  | _ => simp only [items?,Operator.holds]

theorem orderless_present :
    Orderless (fun w => .ok (.present w.truthy)) Operator.holds Found := by
  intro w w' hw v? v?' hv
  refine answerAlike_ok ?_
  cases hv <;> simp only [Operator.holds,hw.truthy_eq,Option.isSome]

theorem orderless_kind : Orderless (fun w => .ok (.kind w)) Operator.holds Found :=
  orderless_of_ok (fun _ _ => by simp only [Operator.holds]) fun _ _ hw v v' hv => by
    simp only [Operator.holds,Value.same,hv.typeName_eq,
      (Value.Rearranged.scalar (.str v'.typeName)).sameAs_congr hw]

theorem orderless_order (o : OrderTest) :
    Orderless (fun w => .ok (.order o w)) Operator.holds Found :=
  orderless_of_ok (fun _ _ => by simp only [Operator.holds]) fun _ _ hw _ _ hv => by
    simp only [Operator.holds,hv.orderHolds_eq hw]

theorem orderless_version (r : VersionRelation) :
    Orderless (fun w => .ok (.version r w.version?)) Operator.holds Found := by
  refine orderless_of_ok (fun _ _ => by simp only [Operator.holds]) fun _ w' hw v v' hv => ?_
  rw [hw.version?_eq]
  cases w'.version? <;> simp only [Operator.holds,hv.version?_eq]

theorem orderless_readVersion (r : VersionRelation) :
    Orderless (readVersion r) Operator.holds Found := by
  intro w w' hw v? v?' hv
  have hplain := orderless_version r hw hv
  cases hw with
  | scalar a =>
    cases a with
    | int n =>
      unfold readVersion
      split
      · exact answerAlike_error _ _
      · exact hplain
    | _ => exact hplain
  | _ => exact hplain

theorem answerAlike_readPattern (text : String) {v? v?' : Option Value} (hv : Found v? v?') :
    AnswerAlike (readPattern text) (·.holds v?) (readPattern text) (·.holds v?') := by
  unfold readPattern
  split
  · refine answerAlike_ok ?_
    cases hv with
    | none => rfl
    | some hv => simp only [Operator.holds,hv.searchText?_eq]
  · refine answerAlike_ok ?_
    cases hv <;> simp only [Operator.holds]
  all_goals exact answerAlike_error _ _

theorem orderless_readPlain (name : String) : Orderless (readPlain name) Operator.holds Found := by
  intro w w' hw v? v?' hv
  unfold readPlain
  -- One case for each name, as the reader has them; the last has the orders and the versions.
  split
  · exact orderless_equal false hw hv
  · exact orderless_equal true hw hv
  · exact orderless_among false hw hv
  · exact orderless_among true hw hv
  · cases hw with
    | scalar a =>
      cases a with
      | str text => exact answerAlike_readPattern text hv
      | _ => exact answerAlike_error _ _
    | _ => exact answerAlike_error _ _
  · exact orderless_present hw hv
  · exact orderless_kind hw hv
  · split
    · exact orderless_order _ hw hv
    · split
      · exact orderless_readVersion _ hw hv
      · exact answerAlike_error _ _

end Plain

section Nested

/-- The items that are found, if what is found is a list. -/
def foundItems (v? : Option Value) : Option (List Value) := v?.bind items?

theorem holds_size (t : ValueTest) (v? : Option Value) :
    (Operator.size t).holds v? =
      (foundItems v?).any fun xs => t.holds (some (.nat xs.length)) := by
  rcases v? with _ | _ | _ | _ | _ | _ <;> simp only [Operator.holds] <;> rfl

theorem holds_every (ts : List ValueTest) (v? : Option Value) :
    (Operator.every (some ts)).holds v? =
      (foundItems v?).any fun xs => ts.all fun t => xs.any fun x => t.holds (some x) := by
  rcases v? with _ | _ | _ | _ | _ | _ <;> simp only [Operator.holds,ValueTest.allMet_eq_all] <;> rfl

theorem holds_every_none (v? : Option Value) : (Operator.every none).holds v? = false := by
  rcases v? with _ | _ | _ | _ | _ | _ <;> simp only [Operator.holds]

theorem holds_someValue (t : ValueTest) (v? : Option Value) :
    (Operator.someValue t).holds v? =
      (foundItems v?).any fun xs => xs.any fun x => t.holds (some x) := by
  rcases v? with _ | _ | _ | _ | _ | _ <;> simp only [Operator.holds] <;> rfl

theorem holds_someItem (c : Condition) (v? : Option Value) :
    (Operator.someItem c).holds v? = (foundItems v?).any fun xs => xs.any c.holds := by
  rcases v? with _ | _ | _ | _ | _ | _ <;> simp only [Operator.holds] <;> rfl

variable {limit : Int} {room : Nat} {v? v?' : Option Value}

theorem Found.items (hv : Found v? v?') :
    Option.Rel (List.Forall₂ Value.Rearranged) (foundItems v?) (foundItems v?') := by
  cases hv with
  | none => exact .none
  | some hv =>
    cases hv with
    | list length items => exact .some (Value.Rearranged.items_forall₂ (.list length items))
    | _ => exact .none

/-- What is asked of the items of a list is asked of nothing else. -/
theorem answerAlike_items {α : Type} {r r' : Except ConditionFailure α}
    {asks : α → List Value → Bool} (hreads : (∃ x, r = .ok x) ↔ ∃ x, r' = .ok x)
    (hv : Found v? v?') (h : ∀ xs ys, List.Forall₂ Value.Rearranged xs ys →
      AnswerAlike r (asks · xs) r' (asks · ys)) :
    AnswerAlike r (fun x => (foundItems v?).any (asks x)) r'
      fun x => (foundItems v?').any (asks x) := by
  have hitems := hv.items
  generalize foundItems v? = xs? at hitems ⊢
  generalize foundItems v?' = ys? at hitems ⊢
  cases hitems with
  | none => exact answerAlike_const hreads false
  | some hxs => exact h _ _ hxs

theorem orderless_readEvery {f : Value → Except ConditionFailure ValueTest}
    (hf : Orderless f ValueTest.holds Found) :
    Orderless (readEvery f) Operator.holds Found := by
  intro w w' hw v? v?' hv
  cases hw with
  | list length items =>
    have hws := Partnered.of_forall₂ (Value.Rearranged.items_forall₂ (.list length items))
    refine AnswerAlike.map ?_
    simp only [Function.comp,holds_every]
    have hreads : ∀ x y, x.Rearranged y → ((∃ t, f x = .ok t) ↔ ∃ t, f y = .ok t) :=
      fun x y hxy => (hf hxy hv).reads
    refine answerAlike_items ?_ hv fun xs ys hxs => ?_
    · rw [exists_collect_iff,exists_collect_iff]
      exact hws.forall_congr hreads
    · exact answerAlike_collect_all hws fun x y hxy =>
        answerAlike_any (hreads x y hxy) (.of_forall₂ hxs) fun u v huv => hf hxy (.some huv)
  | _ => exact answerAlike_ok (by rw [holds_every_none,holds_every_none])

theorem orderless_readEntry (htest : Orderless (readTest limit room) ValueTest.holds Found)
    (hdocument : Orderless (readDocument limit room) Condition.holds Value.Rearranged)
    (key : Scalar) :
    Orderless (fun w => readEntry limit (room + 1) (key,w)) Operator.holds Found := by
  intro w w' hw v? v?' hv
  dsimp only
  by_cases hkey : ∃ name, key = .str name
  · obtain ⟨name,rfl⟩ := hkey
    rw [readEntry_str,readEntry_str,isOperators_eq hw]
    -- As the reader has them: four names whose arguments are tests, one of them with two readings.
    split_ifs
    · refine AnswerAlike.map ?_
      have hreads := (htest hw hv).reads
      cases hv with
      | none => simpa only [Operator.holds] using answerAlike_const hreads false
      | some hv => simpa only [Operator.holds] using (htest hw (.some hv)).not
    · refine AnswerAlike.map ?_
      simp only [holds_size]
      refine answerAlike_items (htest hw hv).reads hv fun xs ys hxs => ?_
      rw [hxs.length_eq]
      exact htest hw (.some (.scalar _))
    · exact orderless_readEvery htest hw hv
    · refine AnswerAlike.map ?_
      simp only [holds_someValue]
      refine answerAlike_items (htest hw hv).reads hv fun xs ys hxs => ?_
      exact answerAlike_any (htest hw hv).reads (.of_forall₂ hxs) fun x y hxy =>
        htest hw (.some hxy)
    · refine AnswerAlike.map ?_
      simp only [holds_someItem]
      have hreads := (hdocument hw hw).reads
      refine answerAlike_items hreads hv fun xs ys hxs => ?_
      exact answerAlike_any hreads (.of_forall₂ hxs) fun x y hxy => hdocument hw hxy
    · exact orderless_readPlain name hw hv
  · have hno : ∀ name, key ≠ .str name := fun name h => hkey ⟨name,h⟩
    rw [readEntry_of_no_name hno,readEntry_of_no_name hno]
    exact answerAlike_error _ _

theorem orderless_readTest
    (hentry : ∀ key, Orderless (fun w => readEntry limit room (key,w)) Operator.holds Found) :
    Orderless (readTest limit (room + 1)) ValueTest.holds Found := by
  intro w w' hw v? v?' hv
  cases hoperators : isOperators w with
  | false =>
    rw [readTest_of_not_operators hoperators,
      readTest_of_not_operators (isOperators_eq hw ▸ hoperators)]
    refine answerAlike_ok ?_
    cases hv with
    | none => simp only [ValueTest.holds,Option.any_none]
    | some hv => simp only [ValueTest.holds,Option.any_some,Value.same,hv.sameAs_congr hw]
  | true =>
    have hoperators' : isOperators w' = true := isOperators_eq hw ▸ hoperators
    cases hw with
    | map distinct keys values order =>
      have hpaired := Entries.Paired.of_zip distinct keys values order
      intro b
      rw [answers_operators_iff hoperators,answers_operators_iff hoperators']
      refine and_congr (hpaired.forall_congr fun k u v huv => ?_)
        (iff_congr Iff.rfl (hpaired.forall_congr fun k u v huv => ?_))
      · exact (hentry k huv hv).reads
      · exact hentry k huv hv true
    | _ => simp [isOperators] at hoperators

theorem orderless_readField {f : Value → Except ConditionFailure ValueTest}
    (hf : Orderless f ValueTest.holds Found) (key : Scalar) :
    Orderless (fun w => readField f (key,w)) Condition.holds Value.Rearranged := by
  intro w w' hw a a' ha
  unfold readField
  dsimp only
  split
  · split_ifs
    · exact answerAlike_error _ _
    · exact answerAlike_error _ _
    · refine AnswerAlike.map ?_
      simp only [Condition.holds]
      exact hf hw (ha.lookup _)
  · exact answerAlike_of_fails (rejectPath_ne_ok _) (rejectPath_ne_ok _)

theorem answerAlike_readList {f : Value → Except ConditionFailure Condition} {name : String}
    {w w' : Value} (hw : w.Rearranged w') {ask ask' : List Condition → Bool}
    (h : ∀ xs ys, List.Forall₂ Value.Rearranged xs ys →
      AnswerAlike (collect f Condition.refused xs) ask (collect f Condition.refused ys) ask') :
    AnswerAlike (readList f name w) ask (readList f name w') ask' := by
  cases hw with
  | list length items => exact h _ _ (Value.Rearranged.items_forall₂ (.list length items))
  | _ => exact answerAlike_error _ _

theorem orderless_readCombinator {f : Value → Except ConditionFailure Condition}
    (hf : Orderless f Condition.holds Value.Rearranged) (name : String) :
    Orderless (readCombinator f name) Condition.holds Value.Rearranged := by
  intro w w' hw a a' ha
  have hmembers : ∀ x y, x.Rearranged y → AnswerAlike (f x) (·.holds a) (f y) (·.holds a') :=
    fun x y hxy => hf hxy ha
  have hany : AnswerAlike (readList f name w) (fun cs => (Condition.anyOf cs).holds a)
      (readList f name w') fun cs => (Condition.anyOf cs).holds a' := by
    simp only [Condition.holds,anyHolds_eq_any]
    exact answerAlike_readList hw fun xs ys hxs =>
      answerAlike_collect_any (.of_forall₂ hxs) hmembers
  unfold readCombinator
  split_ifs
  · exact hany.map
  · refine AnswerAlike.map ?_
    simpa only [Function.comp,Condition.holds] using hany.not
  · refine AnswerAlike.map ?_
    simp only [Condition.holds,allHold_eq_all]
    exact answerAlike_readList hw fun xs ys hxs =>
      answerAlike_collect_all (.of_forall₂ hxs) hmembers
  · refine AnswerAlike.map ?_
    simpa only [Condition.holds] using (hmembers w w' hw).not

theorem orderless_readDocument (htest : Orderless (readTest limit room) ValueTest.holds Found)
    (hdocument : Orderless (readDocument limit room) Condition.holds Value.Rearranged) :
    Orderless (readDocument limit (room + 1)) Condition.holds Value.Rearranged := by
  intro w w' hw a a' ha
  cases hw with
  | map distinct keys values order =>
    have hpaired := Entries.Paired.of_zip distinct keys values order
    rcases hpaired.named? combinators with ⟨hnone,hnone'⟩ | ⟨name,v,v',hv,hv',hvv'⟩
    · intro b
      rw [answers_fields_iff hnone,answers_fields_iff hnone']
      refine and_congr (hpaired.forall_congr fun k u v huv => ?_)
        (iff_congr Iff.rfl (hpaired.forall_congr fun k u v huv => ?_))
      · exact (orderless_readField htest k huv ha).reads
      · exact orderless_readField htest k huv ha true
    · rw [readDocument_map,readDocument_map,hv,hv']
      exact orderless_readCombinator hdocument name hvv' ha
  | _ => exact answerAlike_error _ _

end Nested

/-- The three readers call each other, each with less room, so that they are orderless together. -/
theorem orderless_of_room (limit : Int) (room : Nat) :
    Orderless (readTest limit room) ValueTest.holds Found ∧
      (∀ key, Orderless (fun w => readEntry limit room (key,w)) Operator.holds Found) ∧
      Orderless (readDocument limit room) Condition.holds Value.Rearranged := by
  induction room with
  | zero =>
    refine ⟨fun w w' _ v? v?' _ => ?_,fun key w w' _ v? v?' _ => ?_,fun w w' _ a a' _ => ?_⟩
    · exact answerAlike_of_fails (rejectDepth_ne_ok limit) (rejectDepth_ne_ok limit)
    · exact answerAlike_of_fails (rejectDepth_ne_ok limit) (rejectDepth_ne_ok limit)
    · exact answerAlike_of_fails (rejectDepth_ne_ok limit) (rejectDepth_ne_ok limit)
  | succ room ih =>
    obtain ⟨htest,hentry,hdocument⟩ := ih
    exact ⟨orderless_readTest hentry,orderless_readEntry htest hdocument,
      orderless_readDocument htest hdocument⟩

section Example

open Value

/-- Asks for a plan, as an object, and for an age between two bounds. -/
def teamAdults : Value := .obj [
  ("plan",.obj [("$eq",.obj [("tier",.str "team"),("seats",.nat 5)])]),
  ("age",.obj [("$gte",.nat 18),("$lt",.nat 65)])]

def teamAdultsReordered : Value := .obj [
  ("age",.obj [("$lt",.nat 65),("$gte",.nat 18)]),
  ("plan",.obj [("$eq",.obj [("seats",.nat 5),("tier",.str "team")])])]

def member : Value := .obj [
  ("plan",.obj [("tier",.str "team"),("seats",.nat 5)]),("age",.nat 30)]

def memberReordered : Value := .obj [
  ("age",.nat 30),("plan",.obj [("seats",.nat 5),("tier",.str "team")])]

theorem rearranged_plan : (obj [("tier",.str "team"),("seats",.nat 5)]).Rearranged
    (obj [("seats",.nat 5),("tier",.str "team")]) :=
  .obj (by decide) (.swap _ _ []) (.cons ⟨rfl,.scalar _⟩ (.cons ⟨rfl,.scalar _⟩ .nil))

theorem rearranged_teamAdults : teamAdults.Rearranged teamAdultsReordered := by
  have hequal : (obj [("$eq",.obj [("tier",.str "team"),("seats",.nat 5)])]).Rearranged
      (obj [("$eq",.obj [("seats",.nat 5),("tier",.str "team")])]) :=
    .obj (by decide) (.refl _) (.cons ⟨rfl,rearranged_plan⟩ .nil)
  have hage : (obj [("$gte",.nat 18),("$lt",.nat 65)]).Rearranged
      (obj [("$lt",.nat 65),("$gte",.nat 18)]) :=
    .obj (by decide) (.swap _ _ []) (.cons ⟨rfl,.scalar _⟩ (.cons ⟨rfl,.scalar _⟩ .nil))
  exact .obj (by decide) (.swap _ _ []) (.cons ⟨rfl,hequal⟩ (.cons ⟨rfl,hage⟩ .nil))

theorem rearranged_member : member.Rearranged memberReordered :=
  .obj (by decide) (.swap _ _ []) (.cons ⟨rfl,rearranged_plan⟩ (.cons ⟨rfl,.scalar _⟩ .nil))

theorem writable_member : member.Writable := by
  have hplan : (obj [("tier",.str "team"),("seats",.nat 5)]).Writable :=
    .obj (List.forall_mem_cons.mpr ⟨.scalar rfl,List.forall_mem_singleton.mpr (.scalar (by decide))⟩)
  exact .obj (List.forall_mem_cons.mpr ⟨hplan,List.forall_mem_singleton.mpr (.scalar (by decide))⟩)

end Example
end Condition
end FlagEngine
