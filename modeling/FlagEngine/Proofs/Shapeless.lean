import FlagEngine.Client
import FlagEngine.Condition.Evaluation
import FlagEngine.Proofs.References

/-! Attributes that are no mapping. They have nothing under any name, and names are all that
conditions, hash attributes and filters have of attributes: every path begins with one, and only a
path without segments would come upon the attributes themselves. So they stand for a mapping without
entries, and it is no matter that a client takes one for the other where attributes are falsy. -/
namespace FlagEngine

variable {a : Value}

namespace Value

/-- Nothing under any name. -/
def Nameless (a : Value) : Prop := ∀ name, a.field? name = none

theorem nameless_empty : (map []).Nameless := fun _ => rfl

theorem nameless_of_not_map (h : a.isMap = false) : a.Nameless := by
  intro name
  cases a with
  | map es => cases h
  | scalar _ | list _ | pair _ _ | set _ => rfl

theorem Nameless.agreeOn_empty (h : a.Nameless) (names : List String) :
    AgreeOn names a (map []) :=
  fun name _ => (h name).trans (nameless_empty name).symm

theorem eq_empty_of_falsy_map {es : Entries} (h : (map es).truthy = false) : map es = map [] := by
  cases es with
  | nil => rfl
  | cons e es => cases h

/-- What a client takes for a mapping without entries is one, or no mapping at all. -/
theorem orEmpty_cases (a : Value) : a.orEmpty = a ∨ a.orEmpty = map [] ∧ a.isMap = false := by
  unfold orEmpty
  by_cases htruthy : a.truthy = true
  · exact .inl (if_pos htruthy)
  · rw [if_neg htruthy]
    cases a with
    | map es => exact .inl (eq_empty_of_falsy_map (Bool.eq_false_iff.mpr htruthy)).symm
    | scalar _ | list _ | pair _ _ | set _ => exact .inr ⟨rfl,rfl⟩

end Value

namespace Condition

theorem holds_of_nameless (c : Condition) (h : a.Nameless) : c.holds a = c.holds (.map []) :=
  c.holds_congr (h.agreeOn_empty c.names)

theorem test_of_nameless (c : Condition) (h : a.Nameless) : c.test a = c.test (.map []) := by
  simp only [test,c.holds_of_nameless h,c.stumbles_congr (h.agreeOn_empty c.names)]

theorem testNotes_of_nameless (c : Condition) (h : a.Nameless) :
    c.testNotes a = c.testNotes (.map []) :=
  congrArg (List.map Event.regexInputTooLong) (c.unsearched_congr (h.agreeOn_empty c.names))

theorem evaluate_of_nameless (document : Value) (limit : Int) (h : a.Nameless) :
    evaluate document limit a = evaluate document limit (.map []) := by
  simp only [evaluate,test_of_nameless _ h,testNotes_of_nameless _ h]

end Condition

variable {ν σ : Type} [Fraction ν] (s : Setting σ) (w : World σ)

theorem Experiment.assign_of_nameless (e : Experiment ν) (h : a.Nameless) :
    e.assign s.store s.options a w = e.assign s.store s.options (.map []) w :=
  Experiment.assign_congr (h.agreeOn_empty e.names) s.store s.options w

theorem Feature.resolve_of_nameless (f : Feature ν) (h : a.Nameless) :
    f.resolve s a w = f.resolve s (.map []) w := by
  simp only [Feature.resolve,f.resolveFrom_congr s w 0 (h.agreeOn_empty f.names)]

theorem Catalog.evaluate_of_nameless (c : Catalog ν) (tracker? : Option Tracker) (key : String)
    (h : a.Nameless) : c.evaluate s tracker? key a w = c.evaluate s tracker? key (.map []) w := by
  simp only [Catalog.evaluate,Feature.resolve_of_nameless s w _ h]

/-- Attributes that are no mapping are to conditions, experiments and features what a mapping
without entries is, down to what is stored, reported and noted; and for all attributes a client
gives what its catalog gives. -/
theorem shapeless_attributes_are_empty (c : Catalog ν) (tracker? : Option Tracker) (key : String) :
    (∀ a : Value, a.isMap = false →
      (∀ document limit condition, Condition.read document limit = .ok condition →
        condition.holds a = condition.holds (.map []) ∧
          condition.test a = condition.test (.map [])) ∧
      (∀ document limit,
        Condition.evaluate document limit a = Condition.evaluate document limit (.map [])) ∧
      (∀ e : Experiment ν,
        e.assign s.store s.options a w = e.assign s.store s.options (.map []) w) ∧
      c.evaluate s tracker? key a w = c.evaluate s tracker? key (.map []) w) ∧
    ∀ a, (Client.mk c s tracker?).evaluate key a w = c.evaluate s tracker? key a w := by
  refine ⟨fun a ha => ?_,fun a => ?_⟩
  · have h := Value.nameless_of_not_map ha
    exact ⟨fun _ _ condition _ => ⟨condition.holds_of_nameless h,condition.test_of_nameless h⟩,
      fun document limit => Condition.evaluate_of_nameless document limit h,
      fun e => e.assign_of_nameless s w h,c.evaluate_of_nameless s w tracker? key h⟩
  · unfold Client.evaluate
    obtain horEmpty | ⟨horEmpty,ha⟩ := a.orEmpty_cases
    · rw [horEmpty]
    · rw [horEmpty,c.evaluate_of_nameless s w tracker? key (Value.nameless_of_not_map ha)]

section Example

/-- A hint for those who have no plan. -/
def Catalog.hints : Catalog Rat :=
  ⟨[⟨"hint",.bool false,[.when (some (.field "plan" [] (.operators [.present false])))
    (.force (.bool true) [])]⟩]⟩

theorem text_for_attributes_has_no_plan :
    let evaluation := fun a => Catalog.hints.evaluate (σ := Memory) ⟨none,.default⟩ none "hint" a
      ⟨[],[],[]⟩
    (Value.str "plan").isMap = false ∧ evaluation (.str "plan") = evaluation (.map []) ∧
      (evaluation (.str "plan")).1.toOption.map Decision.isOn = some true := by
  have h := (shapeless_attributes_are_empty ⟨none,.default⟩ (⟨[],[],[]⟩ : World Memory)
    Catalog.hints none "hint").1 (.str "plan") rfl
  exact ⟨rfl,h.2.2.2,by decide +kernel⟩

end Example
end FlagEngine
