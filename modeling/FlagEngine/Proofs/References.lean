import FlagEngine.Proofs.Agreement

/-! What a feature refers to: the attributes that its conditions, its hash attributes and its
filters name. Evaluations look at no other attribute, so that where two attributes agree on these,
they are one and the same evaluation. -/
namespace FlagEngine

mutual
/-- The first segments of the paths of a condition. What items of lists are tested for refers to
the items. -/
def Condition.names : Condition → List String
  | .allOf cs => Condition.allNames cs
  | .anyOf cs => Condition.allNames cs
  | .not c => c.names
  | .field name _ _ => [name]
def Condition.allNames : List Condition → List String
  | [] => []
  | c :: cs => c.names ++ Condition.allNames cs
end

/-- Without a condition nothing is referred to. -/
def Condition.namesOf (c? : Option Condition) : List String := (c?.map Condition.names).getD []

section Names

variable {ν : Type}

def Filter.names (fs : List (Filter ν)) : List String := fs.map (·.hashAttribute)

def Experiment.names (e : Experiment ν) : List String :=
  e.hashAttribute :: (Filter.names e.filters ++ Condition.namesOf e.condition)

def RuleBody.names : RuleBody ν → List String
  | .force _ filters => Filter.names filters
  | .rollout r => r.hashAttribute :: Filter.names r.filters
  | .experiment e => e.names
  | .unknown => []

def Rule.names : Rule ν → List String
  | .invalid _ => []
  | .when c? body => Condition.namesOf c? ++ body.names

/-- The attributes that a feature refers to. -/
def Feature.names (f : Feature ν) : List String := f.rules.flatMap Rule.names

end Names

/-- Two attributes hold the same under each of the names, or both nothing. -/
def Value.AgreeOn (names : List String) (a b : Value) : Prop :=
  ∀ name ∈ names, a.field? name = b.field? name

open Value (AgreeOn)

variable {a b : Value}

theorem Value.agreeOn_cons_iff {name : String} {names : List String} :
    AgreeOn (name :: names) a b ↔ a.field? name = b.field? name ∧ AgreeOn names a b :=
  List.forall_mem_cons

theorem Value.agreeOn_append_iff {names names' : List String} :
    AgreeOn (names ++ names') a b ↔ AgreeOn names a b ∧ AgreeOn names' a b :=
  List.forall_mem_append

theorem Value.subject?_congr {name : String} (h : a.field? name = b.field? name) :
    a.subject? name = b.subject? name := by
  simp only [subject?,h]

theorem Value.sameSubject_of_field? {name : String} (h : a.field? name = b.field? name) :
    a.SameSubject b name :=
  ⟨by simp only [overlongAt,h],Value.subject?_congr h⟩

theorem Value.lookup_congr {name : String} (h : a.field? name = b.field? name)
    (path : List String) : a.lookup (name :: path) = b.lookup (name :: path) := by
  simp only [lookup,h]

/-! The answer of a condition, whether it stumbles and what it leaves unsearched, by the
constructors of a condition. -/
mutual
theorem Condition.holds_congr : ∀ c : Condition, AgreeOn c.names a b → c.holds a = c.holds b
  | .allOf cs, h => by
    simp only [Condition.holds,(Condition.membersHold_congr cs h).1]
  | .anyOf cs, h => by
    simp only [Condition.holds,(Condition.membersHold_congr cs h).2]
  | .not c, h => by
    simp only [Condition.holds,Condition.holds_congr c h]
  | .field name path t, h => by
    simp only [Condition.holds,Value.lookup_congr (Value.agreeOn_cons_iff.mp h).1]
theorem Condition.membersHold_congr : ∀ cs : List Condition, AgreeOn (Condition.allNames cs) a b →
    Condition.allHold cs a = Condition.allHold cs b ∧
      Condition.anyHolds cs a = Condition.anyHolds cs b
  | [], _ => ⟨by simp only [Condition.allHold],by simp only [Condition.anyHolds]⟩
  | c :: cs, h => by
    obtain ⟨hc,hcs⟩ := Value.agreeOn_append_iff.mp h
    obtain ⟨hall,hany⟩ := Condition.membersHold_congr cs hcs
    simp only [Condition.allHold,Condition.anyHolds,Condition.holds_congr c hc,hall,hany,and_self]
end

mutual
theorem Condition.stumbles_congr : ∀ c : Condition, AgreeOn c.names a b →
    c.stumbles a = c.stumbles b
  | .allOf cs, h => by
    simp only [Condition.stumbles,(Condition.membersStumble_congr cs h).1]
  | .anyOf cs, h => by
    simp only [Condition.stumbles,(Condition.membersStumble_congr cs h).2]
  | .not c, h => by
    simp only [Condition.stumbles,Condition.stumbles_congr c h]
  | .field name path t, h => by
    simp only [Condition.stumbles,Value.lookup_congr (Value.agreeOn_cons_iff.mp h).1]
theorem Condition.membersStumble_congr : ∀ cs : List Condition,
    AgreeOn (Condition.allNames cs) a b →
    Condition.allStumble cs a = Condition.allStumble cs b ∧
      Condition.anyStumbles cs a = Condition.anyStumbles cs b
  | [], _ => ⟨by simp only [Condition.allStumble],by simp only [Condition.anyStumbles]⟩
  | c :: cs, h => by
    obtain ⟨hc,hcs⟩ := Value.agreeOn_append_iff.mp h
    obtain ⟨hall,hany⟩ := Condition.membersStumble_congr cs hcs
    simp only [Condition.allStumble,Condition.anyStumbles,Condition.stumbles_congr c hc,
      Condition.holds_congr c hc,hall,hany,and_self]
end

mutual
theorem Condition.unsearched_congr : ∀ c : Condition, AgreeOn c.names a b →
    c.unsearched a = c.unsearched b
  | .allOf cs, h => by
    simp only [Condition.unsearched,(Condition.membersUnsearched_congr cs h).1]
  | .anyOf cs, h => by
    simp only [Condition.unsearched,(Condition.membersUnsearched_congr cs h).2]
  | .not c, h => by
    simp only [Condition.unsearched,Condition.unsearched_congr c h]
  | .field name path t, h => by
    simp only [Condition.unsearched,Value.lookup_congr (Value.agreeOn_cons_iff.mp h).1]
theorem Condition.membersUnsearched_congr : ∀ cs : List Condition,
    AgreeOn (Condition.allNames cs) a b →
    Condition.allUnsearched cs a = Condition.allUnsearched cs b ∧
      Condition.anyUnsearched cs a = Condition.anyUnsearched cs b
  | [], _ => ⟨by simp only [Condition.allUnsearched],by simp only [Condition.anyUnsearched]⟩
  | c :: cs, h => by
    obtain ⟨hc,hcs⟩ := Value.agreeOn_append_iff.mp h
    obtain ⟨hall,hany⟩ := Condition.membersUnsearched_congr cs hcs
    simp only [Condition.allUnsearched,Condition.anyUnsearched,Condition.unsearched_congr c hc,
      Condition.holds_congr c hc,Condition.stumbles_congr c hc,hall,hany,and_self]
end

theorem Experiment.sameAnswer_of_agreeOn {c? : Option Condition}
    (h : AgreeOn (Condition.namesOf c?) a b) : SameAnswer c? a b := by
  cases c? with
  | none => exact ⟨rfl,rfl⟩
  | some c => exact ⟨c.stumbles_congr h,c.holds_congr h⟩

theorem Experiment.tooLong_congr {c? : Option Condition} (h : AgreeOn (Condition.namesOf c?) a b) :
    tooLong c? a = tooLong c? b := by
  cases c? with
  | none => rfl
  | some c => exact congrArg (List.map Event.regexInputTooLong) (c.unsearched_congr h)

variable {ν σ : Type} [Fraction ν]

theorem Filter.equates_of_agreeOn {fs : List (Filter ν)} (h : AgreeOn (Filter.names fs) a b) :
    Filter.Equates fs a b := by
  induction fs with
  | nil => exact ⟨rfl,rfl⟩
  | cons f fs ih =>
    obtain ⟨hf,hfs⟩ := Value.agreeOn_cons_iff.mp h
    have hsubject := Value.sameSubject_of_field? hf
    have hadmits : f.admits a = f.admits b := by simp only [admits,hsubject.subject]
    have hrest := ih hfs
    exact ⟨by simp only [stumble,hsubject.overlong,hadmits,hrest.stumble],
      by simpa only [keepsOut,List.any_cons,hadmits] using congrArg _ hrest.keepsOut⟩

namespace Experiment

variable {e : Experiment ν}

theorem equates_of_agreeOn (h : AgreeOn e.names a b) : e.Equates a b := by
  obtain ⟨hsubject,hrest⟩ := Value.agreeOn_cons_iff.mp h
  obtain ⟨hfilters,hcondition⟩ := Value.agreeOn_append_iff.mp hrest
  exact ⟨Value.sameSubject_of_field? hsubject,Filter.equates_of_agreeOn hfilters,
    sameAnswer_of_agreeOn hcondition⟩

omit [Fraction ν] in
theorem entryNotes_congr (h : AgreeOn e.names a b) (x : Entry) :
    e.entryNotes a x = e.entryNotes b x := by
  obtain ⟨-,hrest⟩ := Value.agreeOn_cons_iff.mp h
  have htooLong := tooLong_congr (Value.agreeOn_append_iff.mp hrest).2
  unfold entryNotes
  simp only [htooLong]

omit [Fraction ν] in
theorem stopNotes_congr (h : AgreeOn e.names a b) (stop : Stop) :
    e.stopNotes a stop = e.stopNotes b stop := by
  obtain ⟨-,hrest⟩ := Value.agreeOn_cons_iff.mp h
  unfold stopNotes
  simp only [tooLong_congr (Value.agreeOn_append_iff.mp hrest).2]

theorem assign_congr (h : AgreeOn e.names a b) (store? : Option (Store σ)) (o : Options)
    (w : World σ) : e.assign store? o a w = e.assign store? o b w := by
  have hequates := equates_of_agreeOn h
  have hsettle : ∀ w x, e.settle store? a w x = e.settle store? b w x := by
    rintro w (_ | _ | _ | _) <;> simp only [settle,hequates.subject?]
  simp only [assign,entry_congr hequates,stopNotes_congr h,entryNotes_congr h,hsettle]

end Experiment

variable (s : Setting σ) (w : World σ)

theorem RuleBody.equates_of_agreeOn {body : RuleBody ν} (h : AgreeOn body.names a b) :
    body.Equates a b := by
  cases body with
  | force value filters => exact Filter.equates_of_agreeOn h
  | rollout r =>
    obtain ⟨hsubject,hfilters⟩ := Value.agreeOn_cons_iff.mp h
    exact ⟨Filter.equates_of_agreeOn hfilters,Value.sameSubject_of_field? hsubject⟩
  | experiment e => exact Experiment.equates_of_agreeOn h
  | unknown => trivial

theorem RuleBody.verdict?_congr {body : RuleBody ν} (h : AgreeOn body.names a b) (feature : String)
    (i : Nat) : body.verdict? s feature i a w = body.verdict? s feature i b w := by
  have hequates := equates_of_agreeOn h
  cases body with
  | force value filters => simp only [verdict?,hequates.keepsOut]
  | rollout r =>
    simp only [verdict?,Rollout.covered?,hequates.1.keepsOut,hequates.2.subject]
  | experiment e => simp only [verdict?,Experiment.assign_congr h]
  | unknown => rfl

theorem Rule.verdict?_congr {r : Rule ν} (h : AgreeOn r.names a b) (feature : String) (i : Nat) :
    r.verdict? s feature i a w = r.verdict? s feature i b w := by
  cases r with
  | invalid reason => rfl
  | when c? body =>
    obtain ⟨hcondition,hbody⟩ := Value.agreeOn_append_iff.mp h
    have hanswer := Experiment.sameAnswer_of_agreeOn hcondition
    have hstumbles : (Rule.when c? body).stumbles a = (Rule.when c? body).stumbles b :=
      stumbles_congr ⟨hanswer,RuleBody.equates_of_agreeOn hbody⟩
    simp only [verdict?,hstumbles,Experiment.tooLong_congr hcondition,hanswer.holds,
      RuleBody.verdict?_congr s _ hbody]

theorem Feature.resolveFrom_congr (f : Feature ν) (i : Nat) {rs : List (Rule ν)}
    (h : AgreeOn (rs.flatMap Rule.names) a b) :
    f.resolveFrom s a i rs w = f.resolveFrom s b i rs w := by
  induction rs generalizing i w with
  | nil => rfl
  | cons r rs ih =>
    rw [List.flatMap_cons,Value.agreeOn_append_iff] at h
    simp only [resolveFrom,Rule.verdict?_congr s w h.1,ih _ _ h.2]

/-- Attributes that agree on what a feature refers to make one evaluation of it: the same decision,
and a world in which the same was stored, reported and noted. -/
theorem only_referenced_attributes_count {c : Catalog ν} {key : String}
    (h : ∀ f ∈ c.get? key, AgreeOn f.names a b) (tracker? : Option Tracker) :
    c.evaluate s tracker? key a w = c.evaluate s tracker? key b w := by
  unfold Catalog.evaluate
  cases hf : c.get? key with
  | none => rfl
  | some f => simp only [Feature.resolve,Feature.resolveFrom_congr s w f 0 (h f hf)]

section Example

/-- An experiment on subjects that have a gift among their items. -/
def Catalog.gifts : Catalog Rat :=
  let gift : Condition := .field "gift" [] (.literal (.bool true))
  let e := Experiment.ofVariations "wrapping" [.str "red",.str "blue"]
  ⟨[⟨"paper",.str "plain",[.when (some (.field "items" [] (.operators [.someItem gift])))
    (.experiment e)]⟩]⟩

/-- Has an item that is a gift, whether it is called a gift itself or not. -/
def Value.customer (gift : Bool) : Value :=
  .obj [("id",.str "u1"),("items",.list [.obj [("gift",.bool true)]]),("gift",.bool gift)]

theorem gift_of_a_customer_does_not_count :
    let evaluation := fun gift => Catalog.gifts.evaluate (σ := Memory) ⟨some Memory.store,.default⟩
      none "paper" (.customer gift) ⟨[],[],[]⟩
    (∀ f ∈ Catalog.gifts.get? "paper", f.names = ["items","id"]) ∧
      evaluation true = evaluation false ∧
      (evaluation true).1.toOption.bind Decision.variationIndex? = some 0 := by
  have hnames : ∀ f ∈ Catalog.gifts.get? "paper", f.names = ["items","id"] := by
    intro f hf
    obtain rfl := Option.some.inj hf
    rfl
  refine ⟨hnames,only_referenced_attributes_count _ _ (fun f hf => ?_) none,by decide +kernel⟩
  rw [hnames f hf]
  exact List.forall_mem_cons.mpr ⟨rfl,List.forall_mem_cons.mpr ⟨rfl,List.forall_mem_nil _⟩⟩

end Example
end FlagEngine
