import FlagEngine.Client
import FlagEngine.Proofs.Assignment

/-! Sessions: a client and its world, answering one call after the other. The trials of a call are
the assignments that it makes, those of rules that say nothing in the end included. They are all
that touches the store: `linked_trials` says that each trial finds the store as the one before it
left it, and what every trial keeps holds after every session. -/
namespace FlagEngine

variable {ν σ : Type}

/-- An assignment as it is about to be made. -/
structure Trial (ν σ : Type) where
  experiment : Experiment ν
  setting : Setting σ
  attributes : Value
  world : World σ

/-- What a decision of an experiment shows is read off the inclusion. -/
theorem Decision.of_inclusion? {d : Decision ν} {k : String} {x : Inclusion ν}
    (h : d.inclusion? = some (k, x)) :
    d.kind = x.origin.kind ∧ d.experimentKey? = some k ∧ d.variationIndex? = some x.index ∧
      d.subject? = x.origin.subject? ∧ d.isSticky = x.origin.isSticky := by
  have hkey : d.experimentKey? = some k := by simp [experimentKey?,h]
  have hindex : d.variationIndex? = some x.index := by simp [variationIndex?,h]
  have hsticky : d.isSticky = x.origin.isSticky := by simp [isSticky,h]
  unfold inclusion? at h
  split at h <;> try contradiction
  rename_i r k' x' hv
  obtain ⟨rfl,rfl⟩ := Prod.mk.inj (Option.some.inj h)
  exact ⟨by simp [kind,hv],hkey,hindex,by simp [Decision.subject?,hv],hsticky⟩

/-- What a rule shows of an assignment: the inclusion, unless its variation is passed through. -/
def Assignment.shown? : Assignment ν → Option (Inclusion ν)
  | .excluded _ => none
  | .included x => if x.passthrough then none else some x

theorem Assignment.shown?_eq_some {y : Assignment ν} {x : Inclusion ν} (h : y.shown? = some x) :
    y = .included x := by
  unfold shown? at h
  split at h <;> try contradiction
  split at h <;> try contradiction
  rw [Option.some.inj h]

/-- The condition comes to an answer, and holds. -/
def Experiment.applies (c? : Option Condition) (a : Value) : Bool :=
  !Experiment.stumbles c? a && Experiment.holds c? a

theorem Experiment.applies_iff (c? : Option Condition) (a : Value) :
    Experiment.applies c? a = true ↔
      Experiment.stumbles c? a = false ∧ Experiment.holds c? a = true := by
  simp [applies]

namespace Rule

/-- The trial that a rule makes, if it comes to one. -/
def trial? (s : Setting σ) (a : Value) (w : World σ) : Rule ν → Option (Trial ν σ)
  | .when c (.experiment e) =>
    if Experiment.applies c a then some ⟨e,s,a,w.noteAll (Experiment.tooLong c a)⟩ else none
  | _ => none

theorem trial?_eq_some_iff (s : Setting σ) (a : Value) (w : World σ) (r : Rule ν) (t : Trial ν σ) :
    r.trial? s a w = some t ↔ ∃ c e, r = .when c (.experiment e) ∧ Experiment.applies c a = true ∧
      t = ⟨e,s,a,w.noteAll (Experiment.tooLong c a)⟩ := by
  constructor
  · intro h
    unfold trial? at h
    split at h <;> try contradiction
    rename_i c e
    split at h <;> try contradiction
    rename_i hc
    exact ⟨c,e,rfl,hc,(Option.some.inj h).symm⟩
  · rintro ⟨c,e,rfl,hc,rfl⟩
    exact if_pos hc

theorem of_mem_trial? {s : Setting σ} {a : Value} {w : World σ} {r : Rule ν} {t : Trial ν σ}
    (h : t ∈ r.trial? s a w) : t.setting = s ∧ t.attributes = a := by
  obtain ⟨c,e,rfl,hc,rfl⟩ := (r.trial?_eq_some_iff s a w t).mp h
  exact ⟨rfl,rfl⟩

end Rule

variable [Fraction ν]

namespace Trial

def outcome (t : Trial ν σ) : Except Fault (Assignment ν) :=
  (t.experiment.assign t.setting.store t.setting.options t.attributes t.world).1

def after (t : Trial ν σ) : World σ :=
  (t.experiment.assign t.setting.store t.setting.options t.attributes t.world).2

def shown? (t : Trial ν σ) : Except Fault (Option (Inclusion ν)) :=
  t.outcome.map Assignment.shown?

theorem outcome_of_shown? {t : Trial ν σ} {x : Inclusion ν} (h : t.shown? = .ok (some x)) :
    t.outcome = .ok (.included x) := by
  unfold shown? at h
  cases ho : t.outcome with
  | error fault => simp [ho,Except.map] at h
  | ok y =>
    have hy : y.shown? = some x := by simpa [ho,Except.map] using h
    rw [Assignment.shown?_eq_some hy]

/-- Each trial finds the store as the one before it left it, from a first store to a last. -/
def Linked : σ → List (Trial ν σ) → σ → Prop
  | m, [], m' => m = m'
  | m, t :: ts, m' => t.world.store = m ∧ Linked t.after.store ts m'

theorem Linked.append {m m' m'' : σ} {ts us : List (Trial ν σ)} (h : Linked m ts m')
    (h' : Linked m' us m'') : Linked m (ts ++ us) m'' := by
  induction ts generalizing m with
  | nil => rwa [List.nil_append,show m = m' from h]
  | cons t ts ih => exact ⟨h.1,ih h.2⟩

/-- What holds of the first store and is kept by every trial holds before and after each. -/
theorem Linked.invariant {P : σ → Prop} {m m' : σ} {ts : List (Trial ν σ)} (h : Linked m ts m')
    (hm : P m) (hts : ∀ t ∈ ts, P t.world.store → P t.after.store) :
    P m' ∧ ∀ t ∈ ts, P t.world.store ∧ P t.after.store := by
  induction ts generalizing m with
  | nil => exact ⟨(show m = m' from h) ▸ hm,by simp⟩
  | cons t ts ih =>
    have ht : P t.world.store := h.1 ▸ hm
    have ht' := hts t (by simp) ht
    have hrest := ih h.2 ht' fun u hu => hts u (by simp [hu])
    refine ⟨hrest.1,fun u hu => ?_⟩
    rcases List.mem_cons.mp hu with rfl | hu
    · exact ⟨ht,ht'⟩
    · exact hrest.2 u hu

end Trial

namespace Rule

@[simp] theorem stumbles_experiment (c : Option Condition) (e : Experiment ν) (a : Value) :
    (Rule.when c (.experiment e)).stumbles a = Experiment.stumbles c a := by
  simp [stumbles,RuleBody.stumbles]

theorem verdict?_of_stumbles {r : Rule ν} {a : Value} (h : r.stumbles a = true) (s : Setting σ)
    (feature : String) (index : Nat) :
    ∃ es, ∀ w : World σ, r.verdict? s feature index a w = (.error .overlongInteger,w.noteAll es) := by
  cases r with
  | invalid reason => cases h
  | when c body => exact ⟨Experiment.tooLong c a,fun w => by simp only [verdict?,h,if_true]⟩

theorem verdict?_of_not_stumbles {c : Option Condition} {body : RuleBody ν} {a : Value}
    (h : (Rule.when c body).stumbles a = false) (s : Setting σ) (feature : String) (index : Nat)
    (w : World σ) :
    (Rule.when c body).verdict? s feature index a w =
      if Experiment.holds c a then
        body.verdict? s feature index a (w.noteAll (Experiment.tooLong c a))
      else
        (.ok none,
          (w.noteAll (Experiment.tooLong c a)).note (.ruleSkipped feature index .condition)) := by
  simp only [verdict?,h,Bool.false_eq_true,if_false]

theorem not_stumbles_of_verdict? {s : Setting σ} {feature : String} {index : Nat} {a : Value}
    {w : World σ} {r : Rule ν} {v? : Option (Verdict ν)}
    (h : (r.verdict? s feature index a w).1 = .ok v?) : r.stumbles a = false := by
  by_contra hr
  rw [Bool.not_eq_false] at hr
  obtain ⟨es,hes⟩ := verdict?_of_stumbles hr s feature index
  simp [hes] at h

/-- A rule that neither stumbles nor makes a trial says the same in every world, nothing of an
experiment, and leaves the store alone. -/
theorem exists_verdict?_of_no_trial {s : Setting σ} {a : Value} {w : World σ} {r : Rule ν}
    (h : r.trial? s a w = none) (hr : r.stumbles a = false) (feature : String) (index : Nat) :
    ∃ v? : Option (Verdict ν), (∀ i k x, v? ≠ some (.experiment i k x)) ∧
      ∀ w' : World σ, (r.verdict? s feature index a w').1 = .ok v? ∧
        (r.verdict? s feature index a w').2.store = w'.store := by
  cases r with
  | invalid reason => exact ⟨none,by simp,fun w' => ⟨rfl,rfl⟩⟩
  | when c body =>
    simp only [verdict?_of_not_stumbles hr]
    by_cases hc : Experiment.holds c a
    · cases body with
      | force value filters =>
        refine ⟨if Filter.keepsOut filters a then none else some (.force index value),?_,?_⟩
        · split <;> simp
        · simp [RuleBody.verdict?,hc]
      | rollout b =>
        by_cases hk : Filter.keepsOut b.filters a
        · exact ⟨none,by simp,by simp [RuleBody.verdict?,hc,hk]⟩
        · cases hv : b.covered? a with
          | none => exact ⟨none,by simp,by simp [RuleBody.verdict?,hc,hk,hv]⟩
          | some v =>
            exact ⟨some (.rollout index b.value v.1 v.2),by simp,
              by simp [RuleBody.verdict?,hc,hk,hv]⟩
      | experiment e =>
        rw [stumbles_experiment] at hr
        simp [trial?,Experiment.applies,hc,hr] at h
      | unknown => exact ⟨none,by simp,by simp [RuleBody.verdict?,hc]⟩
    · exact ⟨none,by simp,by simp [hc]⟩

/-- A rule that makes no trial comes to the same in every world, to nothing of an experiment, and
leaves the store alone. -/
theorem verdict?_of_no_trial {s : Setting σ} {a : Value} {w : World σ} {r : Rule ν}
    (h : r.trial? s a w = none) (feature : String) (index : Nat) :
    ∃ said : Except Fault (Option (Verdict ν)), (∀ i k x, said ≠ .ok (some (.experiment i k x))) ∧
      ∀ w' : World σ, (r.verdict? s feature index a w').1 = said ∧
        (r.verdict? s feature index a w').2.store = w'.store := by
  cases hr : r.stumbles a with
  | true =>
    obtain ⟨es,hes⟩ := verdict?_of_stumbles hr s feature index
    exact ⟨.error .overlongInteger,by simp,fun w' => by simp [hes]⟩
  | false =>
    obtain ⟨v?,hv,hw⟩ := exists_verdict?_of_no_trial h hr feature index
    exact ⟨.ok v?,fun i k x hx => hv i k x (Except.ok.inj hx),hw⟩

/-- A rule that makes a trial does to the world what the trial does, and says what it shows. -/
theorem verdict?_of_trial {s : Setting σ} {a : Value} {w : World σ} {r : Rule ν} {t : Trial ν σ}
    (h : r.trial? s a w = some t) (feature : String) (index : Nat) :
    r.verdict? s feature index a w =
      (t.shown?.map (Option.map (.experiment index t.experiment.key)),t.after) := by
  obtain ⟨c,e,rfl,hc,rfl⟩ := (r.trial?_eq_some_iff s a w t).mp h
  obtain ⟨hr,hc⟩ := (Experiment.applies_iff c a).mp hc
  rw [← stumbles_experiment c e] at hr
  simp only [verdict?_of_not_stumbles hr,RuleBody.verdict?,hc,if_true,Trial.shown?,Trial.outcome,
    Trial.after]
  rcases e.assign s.store s.options a (w.noteAll (Experiment.tooLong c a)) with ⟨f | x,w'⟩
  · rfl
  · cases x with
    | excluded r => rfl
    | included x => cases hp : x.passthrough <;> simp [Except.map,Assignment.shown?,hp]

theorem linked_trial? (s : Setting σ) (a : Value) (w : World σ) (r : Rule ν) (feature : String)
    (index : Nat) :
    Trial.Linked w.store (r.trial? s a w).toList (r.verdict? s feature index a w).2.store := by
  cases ht : r.trial? s a w with
  | none =>
    obtain ⟨said,_,hv⟩ := verdict?_of_no_trial ht feature index
    exact (hv w).2.symm
  | some t =>
    rw [verdict?_of_trial ht]
    obtain ⟨c,e,rfl,hc,rfl⟩ := (r.trial?_eq_some_iff s a w t).mp ht
    exact ⟨rfl,rfl⟩

/-- A verdict of an experiment is what the rule's trial shows. -/
theorem trial_of_verdict? {s : Setting σ} {a : Value} {w : World σ} {r : Rule ν} {feature k : String}
    {index i : Nat} {x : Inclusion ν}
    (h : (r.verdict? s feature index a w).1 = .ok (some (.experiment i k x))) :
    ∃ t ∈ r.trial? s a w, t.experiment.key = k ∧ t.shown? = .ok (some x) := by
  cases ht : r.trial? s a w with
  | none =>
    obtain ⟨said,hv,hw⟩ := verdict?_of_no_trial ht feature index
    rw [(hw w).1] at h
    exact absurd h (hv i k x)
  | some t =>
    rw [verdict?_of_trial ht] at h
    refine ⟨t,rfl,?_⟩
    cases ho : t.shown? with
    | error f => simp [ho,Except.map] at h
    | ok y =>
      cases y with
      | none => simp [ho,Except.map] at h
      | some y =>
        simp only [ho,Except.map,Option.map_some,Except.ok.injEq,Option.some.injEq,
          Verdict.experiment.injEq] at h
        obtain ⟨-,rfl,rfl⟩ := h
        exact ⟨rfl,rfl⟩

/-- A verdict bears the position of its rule. -/
theorem ruleIndex?_of_verdict? {s : Setting σ} {feature : String} {index : Nat} {a : Value}
    {w : World σ} {r : Rule ν} {v : Verdict ν}
    (h : (r.verdict? s feature index a w).1 = .ok (some v)) (k : String) :
    (⟨k,v⟩ : Decision ν).ruleIndex? = some index := by
  cases r with
  | invalid reason => simp [verdict?] at h
  | when c body =>
    rw [verdict?_of_not_stumbles (not_stumbles_of_verdict? h)] at h
    split at h
    · cases body with
      | force value filters =>
        by_cases hk : Filter.keepsOut filters a
        · simp [RuleBody.verdict?,hk] at h
        · obtain rfl : .force index value = v := by simpa [RuleBody.verdict?,hk] using h
          rfl
      | rollout b =>
        by_cases hk : Filter.keepsOut b.filters a
        · simp [RuleBody.verdict?,hk] at h
        · cases hv : b.covered? a with
          | none => simp [RuleBody.verdict?,hk,hv] at h
          | some p =>
            obtain rfl : .rollout index b.value p.1 p.2 = v := by
              simpa [RuleBody.verdict?,hk,hv] using h
            rfl
      | experiment e =>
        unfold RuleBody.verdict? at h
        dsimp only at h
        split at h
        · simp at h
        · simp at h
        · split at h
          · simp at h
          · rw [← Option.some.inj (Except.ok.inj h)]
            rfl
      | unknown => simp [RuleBody.verdict?] at h
    · simp at h

end Rule

namespace Feature

/-- The trials of the rules from a position on, up to the first rule that gives a verdict. -/
def trialsFrom (s : Setting σ) (f : Feature ν) (a : Value) :
    Nat → List (Rule ν) → World σ → List (Trial ν σ)
  | _, [], _ => []
  | i, r :: rs, w =>
    (r.trial? s a w).toList ++
      match r.verdict? s f.key i a w with
      | (.ok none, w) => trialsFrom s f a (i + 1) rs w
      | _ => []

def trials (s : Setting σ) (f : Feature ν) (a : Value) (w : World σ) : List (Trial ν σ) :=
  f.trialsFrom s a 0 f.rules w

theorem linked_trialsFrom (s : Setting σ) (f : Feature ν) (a : Value) (i : Nat)
    (rs : List (Rule ν)) (w : World σ) :
    Trial.Linked w.store (f.trialsFrom s a i rs w) (f.resolveFrom s a i rs w).2.store := by
  induction rs generalizing i w with
  | nil => rfl
  | cons r rs ih =>
    have hr := r.linked_trial? s a w f.key i
    unfold trialsFrom resolveFrom
    rcases hv : r.verdict? s f.key i a w with ⟨fault | _ | v,w'⟩
    · simpa [hv] using hr
    · exact (hv ▸ hr).append (ih (i + 1) w')
    · simpa [hv] using hr

theorem linked_trials (s : Setting σ) (f : Feature ν) (a : Value) (w : World σ) :
    Trial.Linked w.store (f.trials s a w) (f.resolve s a w).2.store :=
  f.linked_trialsFrom s a 0 f.rules w

theorem of_mem_trialsFrom {s : Setting σ} {f : Feature ν} {a : Value} {i : Nat}
    {rs : List (Rule ν)} {w : World σ} {t : Trial ν σ} (h : t ∈ f.trialsFrom s a i rs w) :
    t.setting = s ∧ t.attributes = a := by
  induction rs generalizing i w with
  | nil => simp [trialsFrom] at h
  | cons r rs ih =>
    rcases List.mem_append.mp h with h | h
    · exact Rule.of_mem_trial? (Option.mem_toList.mp h)
    · split at h
      · exact ih h
      · simp at h

theorem trial_of_resolveFrom {s : Setting σ} {f : Feature ν} {a : Value} {i j : Nat}
    {rs : List (Rule ν)} {w : World σ} {k : String} {x : Inclusion ν}
    (h : (f.resolveFrom s a i rs w).1 = .ok (.experiment j k x)) :
    ∃ t ∈ f.trialsFrom s a i rs w, t.experiment.key = k ∧ t.outcome = .ok (.included x) := by
  induction rs generalizing i w with
  | nil => simp [resolveFrom] at h
  | cons r rs ih =>
    unfold resolveFrom at h
    unfold trialsFrom
    rcases hv : r.verdict? s f.key i a w with ⟨fault | _ | v,w'⟩
    · simp [hv] at h
    · obtain ⟨t,ht,hk⟩ := ih (by simpa only [hv] using h)
      exact ⟨t,List.mem_append_right _ ht,hk⟩
    · have hve : v = .experiment j k x := by simpa [hv] using h
      have hr : (r.verdict? s f.key i a w).1 = .ok (some (.experiment j k x)) := by rw [hv,hve]
      obtain ⟨t,ht,hk,ho⟩ := Rule.trial_of_verdict? hr
      exact ⟨t,List.mem_append_left _ (Option.mem_toList.mpr ht),hk,Trial.outcome_of_shown? ho⟩

/-- A decision of an experiment is the outcome of one of the trials. -/
theorem trial_of_resolve {s : Setting σ} {f : Feature ν} {a : Value} {w : World σ} {d : Decision ν}
    {k : String} {x : Inclusion ν} (h : (f.resolve s a w).1 = .ok d)
    (hx : d.inclusion? = some (k, x)) :
    ∃ t ∈ f.trials s a w, t.experiment.key = k ∧ t.outcome = .ok (.included x) := by
  cases hv : (f.resolveFrom s a 0 f.rules w).1 with
  | error fault => simp [resolve,hv,Except.map] at h
  | ok v =>
    have hd : d = ⟨f.key,v⟩ := by simpa [resolve,hv,Except.map,eq_comm] using h
    subst hd
    cases v <;> simp only [Decision.inclusion?,reduceCtorEq,Option.some.injEq,Prod.mk.injEq] at hx
    obtain ⟨rfl,rfl⟩ := hx
    exact trial_of_resolveFrom hv

end Feature
namespace Catalog

def trials (c : Catalog ν) (s : Setting σ) (key : String) (a : Value) (w : World σ) :
    List (Trial ν σ) :=
  match c.get? key with
  | some f => f.trials s a w
  | none => []

omit [Fraction ν] in
@[simp] theorem store_report (tracker? : Option Tracker) (x? : Option Exposure) (w : World σ) :
    (report tracker? x? w).store = w.store := by
  unfold report
  split
  · dsimp only [Tracker.report]
    split <;> simp
  · rfl

theorem trials_of_get? {c : Catalog ν} {key : String} {f : Feature ν} (h : c.get? key = some f)
    (s : Setting σ) (a : Value) (w : World σ) : c.trials s key a w = f.trials s a w := by
  simp only [trials,h]

theorem trials_of_unknown {c : Catalog ν} {key : String} (h : c.get? key = none) (s : Setting σ)
    (a : Value) (w : World σ) : c.trials s key a w = [] := by
  simp only [trials,h]

/-- Reporting the exposure touches neither the decision nor the store. -/
theorem evaluate_of_get? {c : Catalog ν} {key : String} {f : Feature ν} (h : c.get? key = some f)
    (s : Setting σ) (tracker? : Option Tracker) (a : Value) (w : World σ) :
    (c.evaluate s tracker? key a w).1 = (f.resolve s a w).1 ∧
      (c.evaluate s tracker? key a w).2.store = (f.resolve s a w).2.store := by
  simp only [evaluate,h]
  rcases f.resolve s a w with ⟨fault | d,w'⟩
  · exact ⟨rfl,rfl⟩
  · exact ⟨rfl,store_report _ _ _⟩

theorem evaluate_of_unknown {c : Catalog ν} {key : String} (h : c.get? key = none) (s : Setting σ)
    (tracker? : Option Tracker) (a : Value) (w : World σ) :
    c.evaluate s tracker? key a w = (.ok ⟨key,.unknownFeature⟩,w.note (.unknownFeature key)) := by
  simp only [evaluate,h]

theorem linked_trials (c : Catalog ν) (s : Setting σ) (tracker? : Option Tracker) (key : String)
    (a : Value) (w : World σ) :
    Trial.Linked w.store (c.trials s key a w) (c.evaluate s tracker? key a w).2.store := by
  cases hf : c.get? key with
  | none =>
    rw [trials_of_unknown hf,evaluate_of_unknown hf]
    rfl
  | some f =>
    rw [trials_of_get? hf,(evaluate_of_get? hf s tracker? a w).2]
    exact f.linked_trials s a w

theorem of_mem_trials {c : Catalog ν} {s : Setting σ} {key : String} {a : Value} {w : World σ}
    {t : Trial ν σ} (h : t ∈ c.trials s key a w) : t.setting = s ∧ t.attributes = a := by
  unfold trials at h
  split at h
  · exact Feature.of_mem_trialsFrom h
  · simp at h

theorem trial_of_evaluate {c : Catalog ν} {s : Setting σ} {tracker? : Option Tracker} {key : String}
    {a : Value} {w : World σ} {d : Decision ν} {k : String} {x : Inclusion ν}
    (h : (c.evaluate s tracker? key a w).1 = .ok d) (hx : d.inclusion? = some (k, x)) :
    ∃ t ∈ c.trials s key a w, t.experiment.key = k ∧ t.outcome = .ok (.included x) := by
  cases hf : c.get? key with
  | none =>
    rw [evaluate_of_unknown hf] at h
    rw [← Except.ok.inj h] at hx
    cases hx
  | some f =>
    rw [(evaluate_of_get? hf s tracker? a w).1] at h
    rw [trials_of_get? hf]
    exact Feature.trial_of_resolve h hx

end Catalog

/-- What a caller wants to know of a feature: the decision, or something read off it. -/
inductive Question
  | decision
  | isOn
  | isOff
  | value (x : Accessor) (fallback : Value)

inductive Reply (ν : Type)
  | decision (d : Decision ν)
  | assignment (x : Assignment ν)
  | truth (b : Bool)
  | value (v : Value)
  | done

def Question.read {ν : Type} : Question → Decision ν → Reply ν
  | .decision, d => .decision d
  | .isOn, d => .truth d.isOn
  | .isOff, d => .truth d.isOff
  | .value x fallback, d => .value (x.pick fallback d.value)

/-- The calls that a session answers. The client brings its own catalog, options and tracker to
`ask` and `run`; the other calls bring theirs, but all of them use the client's store. -/
inductive Call (ν : Type)
  | ask (q : Question) (key : String) (a : Value)
  | run (e : Experiment ν) (a : Value)
  | evaluate (c : Catalog ν) (o : Options) (tracker? : Option Tracker) (key : String) (a : Value)
  | resolve (f : Feature ν) (o : Options) (a : Value)
  | assign (e : Experiment ν) (o : Options) (a : Value)
  | setCatalog (c : Catalog ν)

structure Session (ν σ : Type) where
  client : Client ν σ
  world : World σ

namespace Session

def setting (s : Session ν σ) (o : Options) : Setting σ := ⟨s.client.setting.store,o⟩

def answer {α : Type} (s : Session ν σ) (reply : α → Reply ν) (r : Except Fault α × World σ) :
    Except Fault (Reply ν) × Session ν σ :=
  (r.1.map reply,{ s with world := r.2 })

def perform (s : Session ν σ) : Call ν → Except Fault (Reply ν) × Session ν σ
  | .ask q key a => s.answer id (s.client.ask q.read key a s.world)
  | .run e a => s.answer .assignment (s.client.run e a s.world)
  | .evaluate c o tracker? key a =>
    s.answer .decision (c.evaluate (s.setting o) tracker? key a s.world)
  | .resolve f o a => s.answer .decision (f.resolve (s.setting o) a s.world)
  | .assign e o a => s.answer .assignment (e.assign s.client.setting.store o a s.world)
  | .setCatalog c => (.ok .done,{ s with client := s.client.withCatalog c })

/-- The trials of one call. -/
def trialsOf (s : Session ν σ) : Call ν → List (Trial ν σ)
  | .ask _ key a => s.client.catalog.trials s.client.setting key a.orEmpty s.world
  | .run e a => [⟨e,s.client.setting,a.orEmpty,s.world⟩]
  | .evaluate c o _ key a => c.trials (s.setting o) key a s.world
  | .resolve f o a => f.trials (s.setting o) a s.world
  | .assign e o a => [⟨e,s.setting o,a,s.world⟩]
  | .setCatalog _ => []

/-- The session after some calls. -/
def after (s : Session ν σ) : List (Call ν) → Session ν σ
  | [] => s
  | c :: cs => (s.perform c).2.after cs

def replies (s : Session ν σ) : List (Call ν) → List (Except Fault (Reply ν))
  | [] => []
  | c :: cs => (s.perform c).1 :: (s.perform c).2.replies cs

def trials (s : Session ν σ) : List (Call ν) → List (Trial ν σ)
  | [] => []
  | c :: cs => s.trialsOf c ++ (s.perform c).2.trials cs

theorem setting_perform (s : Session ν σ) (c : Call ν) :
    (s.perform c).2.client.setting = s.client.setting := by
  cases c <;> rfl

theorem linked_trialsOf (s : Session ν σ) (c : Call ν) :
    Trial.Linked s.world.store (s.trialsOf c) (s.perform c).2.world.store := by
  cases c with
  | ask q key a => exact s.client.catalog.linked_trials s.client.setting s.client.tracker key _ _
  | run e a =>
    refine ⟨rfl,?_⟩
    simp only [perform,answer,Client.run,Trial.after]
    rcases e.assign s.client.setting.store s.client.setting.options a.orEmpty s.world
      with ⟨fault | x,w'⟩
    · rfl
    · exact (Catalog.store_report _ _ w').symm
  | evaluate c o tracker? key a => exact c.linked_trials (s.setting o) tracker? key a s.world
  | resolve f o a => exact f.linked_trials (s.setting o) a s.world
  | assign e o a => exact ⟨rfl,rfl⟩
  | setCatalog c => rfl

/-- The trials of a session are all that touches its store. -/
theorem linked_trials (s : Session ν σ) (cs : List (Call ν)) :
    Trial.Linked s.world.store (s.trials cs) (s.after cs).world.store := by
  induction cs generalizing s with
  | nil => rfl
  | cons c cs ih => exact (s.linked_trialsOf c).append (ih (s.perform c).2)

theorem store_of_mem_trialsOf {s : Session ν σ} {c : Call ν} {t : Trial ν σ}
    (h : t ∈ s.trialsOf c) : t.setting.store = s.client.setting.store := by
  cases c with
  | ask q key a => rw [(Catalog.of_mem_trials h).1]
  | run e a => rw [List.mem_singleton.mp h]
  | evaluate c o tracker? key a => rw [(Catalog.of_mem_trials h).1]; rfl
  | resolve f o a => rw [(Feature.of_mem_trialsFrom h).1]; rfl
  | assign e o a => rw [List.mem_singleton.mp h]; rfl
  | setCatalog c => simp [trialsOf] at h

/-- Whatever the calls, there is one store. -/
theorem store_of_mem_trials {s : Session ν σ} {cs : List (Call ν)} {t : Trial ν σ}
    (h : t ∈ s.trials cs) : t.setting.store = s.client.setting.store := by
  induction cs generalizing s with
  | nil => simp [trials] at h
  | cons c cs ih =>
    rcases List.mem_append.mp h with h | h
    · exact store_of_mem_trialsOf h
    · rw [ih h,s.setting_perform c]

theorem trials_append (s : Session ν σ) (cs ds : List (Call ν)) :
    s.trials (cs ++ ds) = s.trials cs ++ (s.after cs).trials ds := by
  induction cs generalizing s with
  | nil => rfl
  | cons c cs ih => simp [trials,after,ih]

omit [Fraction ν] in
theorem answer_eq_ok {α : Type} {s : Session ν σ} {reply : α → Reply ν}
    {r : Except Fault α × World σ} {y : Reply ν} (h : (s.answer reply r).1 = .ok y) :
    ∃ x, r.1 = .ok x ∧ reply x = y := by
  unfold answer at h
  cases hr : r.1 with
  | error fault => simp [hr,Except.map] at h
  | ok x => exact ⟨x,rfl,by simpa [hr,Except.map] using h⟩

theorem trial_of_perform {s : Session ν σ} {c : Call ν} {d : Decision ν} {k : String}
    {x : Inclusion ν} (h : (s.perform c).1 = .ok (.decision d)) (hx : d.inclusion? = some (k, x)) :
    ∃ t ∈ s.trialsOf c, t.experiment.key = k ∧ t.outcome = .ok (.included x) := by
  cases c with
  | ask q key a =>
    obtain ⟨y,hy,rfl⟩ := answer_eq_ok h
    unfold Client.ask at hy
    cases he : (s.client.evaluate key a s.world).1 with
    | error fault => simp [he,Except.map] at hy
    | ok d' =>
      cases q <;> simp only [he,Except.map,Question.read,Except.ok.injEq,Reply.decision.injEq,
        reduceCtorEq] at hy
      exact Catalog.trial_of_evaluate (hy ▸ he) hx
  | run e a =>
    obtain ⟨y,_,hr⟩ := answer_eq_ok h
    cases hr
  | evaluate c o tracker? key a =>
    obtain ⟨d',hd,hr⟩ := answer_eq_ok h
    exact Catalog.trial_of_evaluate (Reply.decision.inj hr ▸ hd) hx
  | resolve f o a =>
    obtain ⟨d',hd,hr⟩ := answer_eq_ok h
    exact Feature.trial_of_resolve (Reply.decision.inj hr ▸ hd) hx
  | assign e o a =>
    obtain ⟨y,_,hr⟩ := answer_eq_ok h
    cases hr
  | setCatalog c => simp [perform] at h

/-- A decision of an experiment that a session replies with is the outcome of one of its trials. -/
theorem trial_of_reply {s : Session ν σ} {cs : List (Call ν)} {d : Decision ν} {k : String}
    {x : Inclusion ν} (h : .ok (.decision d) ∈ s.replies cs) (hx : d.inclusion? = some (k, x)) :
    ∃ t ∈ s.trials cs, t.experiment.key = k ∧ t.outcome = .ok (.included x) := by
  induction cs generalizing s with
  | nil => simp [replies] at h
  | cons c cs ih =>
    rcases List.mem_cons.mp h with h | h
    · obtain ⟨t,ht,hk⟩ := trial_of_perform h.symm hx
      exact ⟨t,List.mem_append_left _ ht,hk⟩
    · obtain ⟨t,ht,hk⟩ := ih h
      exact ⟨t,List.mem_append_right _ ht,hk⟩

end Session
end FlagEngine
