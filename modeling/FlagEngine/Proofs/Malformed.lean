import FlagEngine.Proofs.Traps
import FlagEngine.Rule.Intake

/-! Reading one rule. A rule that is malformed becomes an invalid rule that shows why; there are
four ways to be malformed. Only a trapped condition keeps a rule from becoming a rule at all. -/
namespace FlagEngine

namespace Rule

/-- A rule with the fields of a rule, whose condition is trapped. -/
def Trapped (v : Value) (limit : Int) (f : Fault) : Prop :=
  ∃ es r entries, v = .map es ∧ Intake.ruleFields es = .good r ∧ r.condition = some entries ∧
    entries ≠ [] ∧ Condition.Trapped (.obj entries) limit f

/-- What makes a rule invalid, and the reason that it then shows. -/
inductive Malformed (limit : Int) : Value → String → Prop
  | noObject {v : Value} (h : v.isMap = false) : Malformed limit v notAnObject
  | fields {es : Entries} {errors : List Location} (h : Intake.ruleFields es = .bad errors) :
    Malformed limit (.map es) (badFields errors.length)
  | condition {es : Entries} {r : Intake.RuleFields} {entries : List (String × Value)}
    {e : ConditionError} {refused : List String} (fields : Intake.ruleFields es = .good r)
    (condition : r.condition = some entries) (ne : entries ≠ [])
    (h : Condition.read (.obj entries) limit = .error ⟨.error e,refused⟩) :
    Malformed limit (.map es) e.text
  | nothing {es : Entries} {r : Intake.RuleFields} {c : Option Condition}
    (fields : Intake.ruleFields es = .good r) (condition : readCondition limit r.condition = .ok c)
    (no_force : r.force = .null) (no_variations : r.variations = none) :
    Malformed limit (.map es) nothingToDo

theorem endsIn_readCondition_iff (limit : Int) (c? : Option (List (String × Value))) (f : Fault) :
    Condition.EndsIn (readCondition limit c?) f ↔
      ∃ entries, c? = some entries ∧ entries ≠ [] ∧ Condition.Trapped (.obj entries) limit f := by
  unfold readCondition
  split
  · simp [Condition.not_endsIn_ok]
  · simp [Condition.not_endsIn_ok]
  · next es hne =>
    rw [Condition.endsIn_map_iff,Condition.endsIn_read_iff]
    simp only [Option.some.injEq,exists_eq_left']
    exact ⟨fun h => ⟨fun hes => hne (hes ▸ rfl),h⟩,And.right⟩

theorem finish_eq_error_iff (r : Intake.RuleFields) (k : String) (limit : Int) (f : Fault) :
    (finish r k limit).1 = .error f ↔ Condition.EndsIn (readCondition limit r.condition) f := by
  unfold finish
  rcases readCondition limit r.condition with ⟨e | g,refused⟩ | c
  · simp [Condition.EndsIn]
  · simp [Condition.EndsIn]
  · dsimp only
    cases r.body? k <;> simp [Condition.EndsIn]

theorem compile_of_good {es : Entries} {r : Intake.RuleFields}
    (h : Intake.ruleFields es = .good r) (k : String) (limit : Int) :
    compile (.map es) k limit = finish r k limit := by
  unfold compile
  dsimp only
  rw [h]

theorem compile_of_bad {es : Entries} {errors : List Location}
    (h : Intake.ruleFields es = .bad errors) (k : String) (limit : Int) :
    compile (.map es) k limit = (.ok (.invalid (badFields errors.length)),[]) := by
  unfold compile
  dsimp only
  rw [h]

theorem compile_of_noObject {v : Value} (h : v.isMap = false) (k : String) (limit : Int) :
    compile v k limit = (.ok (.invalid notAnObject),[]) := by
  cases v <;> first | rfl | cases h

/-- A rule is no object, or its fields are read, for good or bad. -/
theorem object_cases (v : Value) : v.isMap = false ∨
    ∃ es, v = .map es ∧
      ((∃ errors, Intake.ruleFields es = .bad errors) ∨ ∃ r, Intake.ruleFields es = .good r) := by
  cases v with
  | map es =>
    refine .inr ⟨es,rfl,?_⟩
    rcases hfields : Intake.ruleFields es with r | errors
    · exact .inr ⟨r,rfl⟩
    · exact .inl ⟨errors,rfl⟩
  | _ => exact .inl rfl

theorem compile_eq_error_iff (v : Value) (k : String) (limit : Int) (f : Fault) :
    (compile v k limit).1 = .error f ↔ Trapped v limit f := by
  constructor
  · intro h
    obtain hno | ⟨es,rfl,⟨errors,hfields⟩ | ⟨r,hfields⟩⟩ := object_cases v
    · rw [compile_of_noObject hno] at h
      cases h
    · rw [compile_of_bad hfields] at h
      cases h
    · rw [compile_of_good hfields,finish_eq_error_iff,endsIn_readCondition_iff] at h
      obtain ⟨entries,hcondition,hne,htrapped⟩ := h
      exact ⟨es,r,entries,rfl,hfields,hcondition,hne,htrapped⟩
  · rintro ⟨es,r,entries,rfl,hfields,hcondition,hne,htrapped⟩
    rw [compile_of_good hfields,finish_eq_error_iff,endsIn_readCondition_iff]
    exact ⟨entries,hcondition,hne,htrapped⟩

theorem body?_eq_none_iff (r : Intake.RuleFields) (k : String) :
    r.body? k = none ↔ r.force = .null ∧ r.variations = none := by
  unfold Intake.RuleFields.body?
  split
  · next hforce hvariations => simp [hvariations]
  · next hforce hvariations => simp [hforce,hvariations]
  · next hsome hnone =>
    constructor
    · intro h
      split at h <;> cases h
    · rintro ⟨hforce,hvariations⟩
      exact absurd hvariations (hnone hforce)

theorem readCondition_eq_error_iff (limit : Int) (c? : Option (List (String × Value)))
    (x : ConditionFailure) : readCondition limit c? = .error x ↔
      ∃ entries, c? = some entries ∧ entries ≠ [] ∧
        Condition.read (.obj entries) limit = .error x := by
  unfold readCondition
  split
  · simp
  · simp
  · next es hne =>
    have hes : es ≠ [] := fun h => hne (h ▸ rfl)
    rcases hread : Condition.read (.obj es) limit with e | c <;> simp [Except.map,hes,hread]

theorem finish_eq_invalid_iff (r : Intake.RuleFields) (k : String) (limit : Int) (reason : String) :
    (finish r k limit).1 = .ok (.invalid reason) ↔
      (∃ e refused, readCondition limit r.condition = .error ⟨.error e,refused⟩ ∧
        reason = e.text) ∨
      (∃ c, readCondition limit r.condition = .ok c) ∧ r.force = .null ∧ r.variations = none ∧
        reason = nothingToDo := by
  unfold finish
  rcases readCondition limit r.condition with ⟨e | g,refused⟩ | c
  · simp [eq_comm]
  · simp
  · dsimp only
    rcases hbody : r.body? k with _ | body
    · obtain ⟨hforce,hvariations⟩ := (body?_eq_none_iff r k).mp hbody
      simp [hforce,hvariations,eq_comm]
    · refine iff_of_false (by simp) ?_
      rintro (⟨e,refused,h,-⟩ | ⟨-,hforce,hvariations,-⟩)
      · cases h
      · rw [(body?_eq_none_iff r k).mpr ⟨hforce,hvariations⟩] at hbody
        cases hbody

theorem compile_eq_invalid_iff (v : Value) (k : String) (limit : Int) (reason : String) :
    (compile v k limit).1 = .ok (.invalid reason) ↔ Malformed limit v reason := by
  constructor
  · intro h
    obtain hno | ⟨es,rfl,⟨errors,hfields⟩ | ⟨r,hfields⟩⟩ := object_cases v
    · rw [compile_of_noObject hno] at h
      obtain rfl := Rule.invalid.inj (Except.ok.inj h)
      exact .noObject hno
    · rw [compile_of_bad hfields] at h
      obtain rfl := Rule.invalid.inj (Except.ok.inj h)
      exact .fields hfields
    · rw [compile_of_good hfields,finish_eq_invalid_iff] at h
      obtain ⟨e,refused,hread,rfl⟩ | ⟨⟨c,hread⟩,hforce,hvariations,rfl⟩ := h
      · obtain ⟨entries,hcondition,hne,herror⟩ :=
          (readCondition_eq_error_iff limit r.condition _).mp hread
        exact .condition hfields hcondition hne herror
      · exact .nothing hfields hread hforce hvariations
  · intro h
    cases h with
    | noObject h => rw [compile_of_noObject h]
    | fields h => rw [compile_of_bad h]
    | condition hfields hcondition hne h =>
      rw [compile_of_good hfields,finish_eq_invalid_iff]
      exact .inl ⟨_,_,(readCondition_eq_error_iff limit _ _).mpr ⟨_,hcondition,hne,h⟩,rfl⟩
    | nothing hfields hread hforce hvariations =>
      rw [compile_of_good hfields,finish_eq_invalid_iff]
      exact .inr ⟨⟨_,hread⟩,hforce,hvariations,rfl⟩

end Rule

end FlagEngine
