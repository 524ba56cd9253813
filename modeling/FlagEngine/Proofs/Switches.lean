import FlagEngine.Proofs.Commutation
import FlagEngine.Proofs.Faults
import FlagEngine.Proofs.Recording
import FlagEngine.Proofs.Silence

/-! The switch and the test mode. Both keep every subject out of every experiment before the store
is asked, the switch before and the test mode after variations are forced. So under either of them
no call is made on a store and nothing is reported; where experiments are switched off their rules
are silent, and features decide as if they had none, and in test mode force has the say that it
has elsewhere. -/
namespace FlagEngine

variable {ν σ : Type} [Fraction ν]

/-- Under these options nobody may enter an experiment of their own accord. -/
def Options.Closed (o : Options) : Prop := o.enabled = false ∨ o.qaMode = true

namespace Experiment

variable {e : Experiment ν} {o : Options} {a : Value}

theorem entry_ne_eligible (h : o.Closed) (subject : String) :
    e.entry o a ≠ .ok (.eligible subject) := by
  intro hentry
  obtain hoff | hqa := h
  · simp only [entry,hoff,Bool.not_false,if_true] at hentry
    split at hentry
    · cases hentry
    · split at hentry <;> cases hentry
  · obtain ⟨-,hout⟩ := entry_eq_eligible hentry
    unfold exclusion? at hout
    split at hout
    · cases hout
    · rw [hqa,if_pos rfl] at hout
      split at hout <;> cases hout

theorem store_of_closed (h : o.Closed) (store? : Option (Store σ)) (w : World σ) :
    (e.assign store? o a w).2.store = w.store :=
  (assign_of_not_eligible (entry_ne_eligible h) store? w).2

theorem kind_ne_of_closed (h : o.Closed) {store? : Option (Store σ)} {w : World σ}
    {x : Inclusion ν} (hx : (e.assign store? o a w).1 = .ok (.included x)) :
    x.origin.kind ≠ .experiment := fun hkind =>
  have ⟨subject,hentry⟩ := Enrolls.eligible ⟨x,hx,hkind⟩
  entry_ne_eligible h subject hentry

end Experiment

omit [Fraction ν] in
theorem Assignment.exposure?_of_kind_ne {x : Assignment ν}
    (h : ∀ i, x = .included i → i.origin.kind ≠ .experiment) (key : String) :
    x.exposure? key = none := by
  cases x with
  | excluded s => rfl
  | included i => simp only [exposure?,i.origin.exposed?_of_kind.2 (h i rfl),Option.map_none]

omit [Fraction ν] in
theorem Decision.exposure?_of_kind_ne {d : Decision ν} (h : d.kind ≠ .experiment) :
    d.exposure? = none := by
  obtain ⟨k,v⟩ := d
  cases v with
  | experiment r key i => simp only [exposure?,i.origin.exposed?_of_kind.2 h,Option.map_none]
  | _ => rfl

omit [Fraction ν] in
/-- A decision of the kind of experiments has an inclusion of that kind. -/
theorem Decision.inclusion_of_kind {d : Decision ν} (h : d.kind = .experiment) :
    ∃ key i, d.inclusion? = some (key, i) ∧ i.origin.kind = .experiment := by
  obtain ⟨k,v⟩ := d
  cases v with
  | experiment r key i => exact ⟨key,i,rfl,h⟩
  | _ => cases h

namespace Feature

variable {f : Feature ν} {s : Setting σ} {a : Value}

theorem store_of_closed (h : s.options.Closed) (w : World σ) :
    (f.resolve s a w).2.store = w.store := by
  refine ((f.linked_trials s a w).invariant (P := (· = w.store)) rfl fun t ht hstore => ?_).1
  have hsetting := (of_mem_trialsFrom ht).1
  exact (Experiment.store_of_closed (by rw [hsetting]; exact h) _ t.world).trans hstore

theorem kind_ne_of_closed (h : s.options.Closed) {w : World σ} {d : Decision ν}
    (hd : (f.resolve s a w).1 = .ok d) : d.kind ≠ .experiment := by
  intro hkind
  obtain ⟨key,i,hi,horigin⟩ := d.inclusion_of_kind hkind
  obtain ⟨t,ht,-,hincluded⟩ := trial_of_resolve hd hi
  have hsetting := (of_mem_trialsFrom ht).1
  exact Experiment.kind_ne_of_closed (by rw [hsetting]; exact h) hincluded horigin

theorem storeCalls_of_closed (h : s.options.Closed) (w : World σ) : f.storeCalls s a w = [] :=
  congrArg Prod.snd (store_of_closed (s := s.recorded) h w.recording)

end Feature

namespace Catalog

variable {c : Catalog ν} {s : Setting σ}

theorem storeCalls_of_closed (h : s.options.Closed) (tracker? : Option Tracker) (key : String)
    (a : Value) (w : World σ) : c.storeCalls s tracker? key a w = [] := by
  unfold storeCalls
  cases hf : c.get? key with
  | none =>
    rw [evaluate_of_unknown hf]
    rfl
  | some f =>
    rw [(evaluate_of_get? hf s.recorded tracker? a w.recording).2]
    exact f.storeCalls_of_closed h w

theorem exposures_of_closed (h : s.options.Closed) (tracker? : Option Tracker) (key : String)
    (a : Value) (w : World σ) : (c.evaluate s tracker? key a w).2.exposures = w.exposures := by
  cases hf : c.get? key with
  | none => rw [evaluate_of_unknown hf]; rfl
  | some f =>
    have hexposures := f.exposures_resolve s a w
    simp only [evaluate,hf]
    rcases hr : f.resolve s a w with ⟨fault | d,v⟩ <;> rw [hr] at hexposures
    · exact hexposures
    · have hkind := Feature.kind_ne_of_closed h (d := d) (by rw [hr])
      dsimp only
      rw [Decision.exposure?_of_kind_ne hkind]
      cases tracker? <;> exact hexposures

end Catalog

theorem Client.exposures_run_of_closed {c : Client ν σ} (h : c.setting.options.Closed)
    (e : Experiment ν) (a : Value) (w : World σ) : (c.run e a w).2.exposures = w.exposures := by
  have hexposures := e.exposures_assign c.setting.store c.setting.options a.orEmpty w
  unfold run
  rcases hr : e.assign c.setting.store c.setting.options a.orEmpty w with ⟨fault | x,v⟩ <;>
    rw [hr] at hexposures
  · exact hexposures
  · have hnone := x.exposure?_of_kind_ne
      (fun i hi => Experiment.kind_ne_of_closed h (by rw [hr,hi])) e.key
    dsimp only
    rw [hnone]
    cases c.tracker <;> exact hexposures

/-! Where experiments are switched off their rules are silent, unless their condition stumbles or
their hash attribute, which is read before the switch, cannot be written. -/

theorem Experiment.entry_of_disabled {e : Experiment ν} {o : Options} (h : o.enabled = false)
    (a : Value) : e.entry o a = .error .subject ∨ ∃ r, e.entry o a = .ok (.excluded r) := by
  simp only [entry,h,Bool.not_false,if_true]
  split
  · exact .inl rfl
  · split <;> exact .inr ⟨_,rfl⟩

theorem Rule.silent_or_fails_of_disabled {s : Setting σ} (h : s.options.enabled = false)
    (feature : String) (a : Value) {r : Rule ν} (hr : r.experiment?.isSome = true) :
    r.Silent s feature a ∨ r.Fails s feature a .overlongInteger := by
  cases hstumbles : r.stumbles a with
  | true =>
    refine .inr fun i w => ?_
    obtain ⟨es,hes⟩ := verdict?_of_stumbles hstumbles s feature i
    rw [hes]
  | false =>
    rcases r with reason | ⟨c,body⟩
    · cases hr
    · cases body with
      | experiment e =>
        by_cases hc : Experiment.holds c a = true
        · rcases e.entry_of_disabled h a with hstop | ⟨r,hout⟩
          · refine .inr fun i w => ?_
            simp only [verdict?_of_not_stumbles hstumbles,hc,if_true,RuleBody.verdict?,
              Experiment.assign,hstop]
            rfl
          · refine .inl fun i w => ?_
            simp only [verdict?_of_not_stumbles hstumbles,hc,if_true,RuleBody.verdict?,
              Experiment.assign,hout]
            exact ⟨rfl,rfl,rfl⟩
        · refine .inl fun i w => ?_
          simp only [verdict?_of_not_stumbles hstumbles,hc]
          exact ⟨rfl,rfl,rfl⟩
      | _ => cases hr

namespace Feature

/-- The feature without the rules of its experiments. -/
def withoutExperiments (f : Feature ν) : Feature ν :=
  { f with rules := f.rules.filter (·.experiment?.isNone) }

/-- The place that the `k`-th of the rules without an experiment has among all rules. -/
def plainPlace (f : Feature ν) (k : Nat) : Nat := (f.rules.findIdxs (·.experiment?.isNone)).getD k 0

omit [Fraction ν] in
/-- What a list keeps stands in it between what it does not keep. -/
theorem scattered_filter (keep : Rule ν → Bool) {φ : Nat → Nat} {i j : Nat} {rs : List (Rule ν)}
    (hφ : ∀ k, k < (rs.filter keep).length → φ (i + k) = (rs.findIdxs keep j).getD k 0) :
    Rule.Scattered (fun r => keep r = false) φ i (rs.filter keep) j rs := by
  induction rs generalizing i j with
  | nil => exact .nil i j
  | cons r rs ih =>
    cases hr : keep r with
    | false =>
      simp only [List.filter_cons,List.findIdxs_cons,hr,Bool.false_eq_true,if_false] at hφ ⊢
      exact .skip hr (ih hφ)
    | true =>
      simp only [List.filter_cons,List.findIdxs_cons,hr,if_true,List.length_cons] at hφ ⊢
      refine .keep r (hφ 0 (Nat.succ_pos _)) (ih fun k hk => ?_)
      have hnext := hφ (k + 1) (Nat.succ_lt_succ hk)
      rw [List.getD_cons_succ] at hnext
      rwa [Nat.add_assoc,Nat.add_comm 1 k]

theorem resolve_of_disabled {s : Setting σ} (h : s.options.enabled = false) (f : Feature ν)
    (a : Value) (w : World σ) :
    (f.resolve s a w).1 =
        (f.withoutExperiments.resolve s a w).1.map (Decision.move f.plainPlace) ∨
      (f.resolve s a w).1 = .error .overlongInteger := by
  have hsilent : ∀ r : Rule ν, r.experiment?.isNone = false → r.Silent s f.key a ∨
      ∃ x, x = .overlongInteger ∧ r.Fails s f.key a x := fun r hr =>
    (Rule.silent_or_fails_of_disabled h f.key a
      (by simpa [Option.isSome_iff_ne_none] using hr)).imp_right fun hfails => ⟨_,rfl,hfails⟩
  have hscattered : Rule.Scattered (fun r : Rule ν => r.experiment?.isNone = false) f.plainPlace 0
      f.withoutExperiments.rules 0 f.rules :=
    scattered_filter _ fun k _ => by rw [Nat.zero_add]; rfl
  have hkey : f.key = f.withoutExperiments.key := rfl
  have hdefault : f.default = f.withoutExperiments.default := rfl
  rcases resolve_scattered hkey hdefault hsilent hscattered (.refl w) with halike | ⟨x,rfl,hx⟩
  · exact .inl halike.1.symm
  · exact .inr hx

/-- Without experiments there is nothing that could look at a URL. -/
theorem fault_of_withoutExperiments {s : Setting σ} {f : Feature ν} {a : Value} {w : World σ}
    {x : Fault} (h : (f.withoutExperiments.resolve s a w).1 = .error x) : x = .overlongInteger := by
  obtain ⟨us,r,vs,hrules,⟨-,rfl⟩ | ⟨c,e,rfl,-⟩,-⟩ := (resolve_eq_error_iff s _ a w x).mp h
  · rfl
  · have hmem : Rule.when c (.experiment e) ∈ f.withoutExperiments.rules := by simp [hrules]
    have hplain := (List.mem_filter.mp hmem).2
    cases hplain

/-- With the switch off a feature decides as if it had no experiments, or comes upon an integer that
cannot be written. -/
theorem decided_of_disabled {s : Setting σ} (h : s.options.enabled = false) (f : Feature ν)
    (a : Value) (w : World σ) :
    (∃ d, (f.withoutExperiments.resolve s a w).1 = .ok d ∧
        (f.resolve s a w).1 = .ok (d.move f.plainPlace)) ∨
      ¬ a.Writable ∧ (f.resolve s a w).1 = .error .overlongInteger := by
  have hunwritable : (f.resolve s a w).1 = .error .overlongInteger → ¬ a.Writable := fun hx ha =>
    f.not_faulty_of_writable ha (fun hon => by simp [h] at hon) w _
      ((f.resolve_eq_error_iff s a w _).mp hx)
  rcases f.resolve_of_disabled h a w with hsame | hx
  · cases hd : (f.withoutExperiments.resolve s a w).1 with
    | ok d => exact .inl ⟨d,rfl,by rw [hsame,hd]; rfl⟩
    | error x =>
      have hx : (f.resolve s a w).1 = .error .overlongInteger := by
        rw [hsame,hd,fault_of_withoutExperiments hd]
        rfl
      exact .inr ⟨hunwritable hx,hx⟩
  · exact .inr ⟨hunwritable hx,hx⟩

end Feature

/-! In test mode force has the say that it has elsewhere. -/

namespace Experiment

variable {e : Experiment ν} {o : Options} {a : Value}

/-- Under two options with the same switch and the same force the entry is the same, unless it is
settled at the last by what keeps a subject out. -/
theorem entry_eq_or {o' : Options} (henabled : o'.enabled = o.enabled)
    (hforced : e.forcedBy o' = e.forcedBy o) :
    e.entry o' a = e.entry o a ∨ (∃ r, e.entry o a = .ok (.excluded r)) ∨
      ∃ subject, e.entry o a = .ok (.eligible subject) := by
  unfold entry
  rw [henabled,hforced]
  split
  · exact .inl rfl
  split
  · exact .inl rfl
  split
  · exact .inl rfl
  split
  · exact .inl rfl
  · exact .inl rfl
  split
  · exact .inl rfl
  split
  · exact .inl rfl
  next subject _ =>
  split
  · exact .inl rfl
  unfold admission
  split
  · exact .inl rfl
  cases e.exclusion? o a subject with
  | some r => exact .inr (.inl ⟨r,rfl⟩)
  | none => exact .inr (.inr ⟨subject,rfl⟩)

/-- The test mode is looked at last, where nothing forces a variation. -/
theorem entry_of_forced {b : Bool} (b' : Bool) {x : Entry}
    (h : e.entry { o with qaMode := b } a = .ok x) (hx : ∃ i, x = .forced i ∨ x = .pinned i) :
    e.entry { o with qaMode := b' } a = .ok x := by
  have hentry : e.entry { o with qaMode := b' } a = e.entry { o with qaMode := b } a ∨ _ :=
    entry_eq_or rfl rfl
  obtain hsame | ⟨r,hout⟩ | ⟨subject,hin⟩ := hentry
  · exact hsame.trans h
  · obtain rfl := Except.ok.inj (hout.symm.trans h)
    obtain ⟨i,hx | hx⟩ := hx <;> cases hx
  · obtain rfl := Except.ok.inj (hin.symm.trans h)
    obtain ⟨i,hx | hx⟩ := hx <;> cases hx

/-- Whom the store or the draw takes in is not forced. -/
theorem kind_of_enroll {store? : Option (Store σ)} {subject : String} {w : World σ}
    {x : Inclusion ν} (h : (e.enroll store? subject w).1 = .included x) :
    x.origin.kind = .experiment := by
  have hplace : ∀ (v : World σ), (e.place store? subject v).1 = .included x →
      x.origin.kind = .experiment := by
    intro v hv
    unfold place at hv
    rcases hdraw : e.draw subject with r | ⟨i,n⟩ <;> simp only [hdraw] at hv
    · cases hv
    · rw [(takeIn_eq_included hv).2.1]
      rfl
  cases store? with
  | none => exact hplace w h
  | some store =>
    simp only [enroll] at h
    rcases hr : e.stored store subject w with ⟨_ | i,v⟩ <;> simp only [hr] at h
    · exact hplace v h
    · rw [(takeIn_eq_included h).2.1]
      rfl

/-- An assignment by force was forced at the entry. -/
theorem entry_of_forced_inclusion {store? : Option (Store σ)} {w : World σ} {x : Inclusion ν}
    (h : (e.assign store? o a w).1 = .ok (.included x)) (hx : x.origin.kind = .forcedVariation) :
    ∃ y, e.entry o a = .ok y ∧ ∃ i, y = .forced i ∨ y = .pinned i := by
  unfold assign at h
  rcases hentry : e.entry o a with fault | y <;> rw [hentry] at h
  · cases h
  · refine ⟨y,rfl,?_⟩
    cases y with
    | excluded r => cases h
    | forced i => exact ⟨i,.inl rfl⟩
    | pinned i => exact ⟨i,.inr rfl⟩
    | eligible subject =>
      have hkind := kind_of_enroll (Except.ok.inj h)
      rw [hkind] at hx
      cases hx

/-- What is forced is forced in test mode and out of it. -/
theorem assign_of_forced {store? : Option (Store σ)} {w : World σ} {x : Inclusion ν} {b : Bool}
    (b' : Bool) (h : (e.assign store? { o with qaMode := b } a w).1 = .ok (.included x))
    (hx : x.origin.kind = .forcedVariation) :
    e.assign store? { o with qaMode := b' } a w = e.assign store? { o with qaMode := b } a w := by
  obtain ⟨y,hentry,hforced⟩ := entry_of_forced_inclusion h hx
  unfold assign
  rw [hentry,entry_of_forced b' hentry hforced]

end Experiment

/-- Whatever is assigned, evaluated or run for these attributes, no call is made on the store and
no exposure is reported. -/
structure Setting.LeavesNoTrace (ν : Type) [Fraction ν] (s : Setting σ) (a : Value) (w : World σ) :
    Prop where
  assign (e : Experiment ν) : (e.assign s.recorded.store s.options a w.recording).2.store.2 = []
  resolve (f : Feature ν) : f.storeCalls s a w = []
  evaluate (c : Catalog ν) (tracker? : Option Tracker) (key : String) :
    c.storeCalls s tracker? key a w = [] ∧
      (c.evaluate s tracker? key a w).2.exposures = w.exposures
  run (c : Client ν σ) (h : c.setting = s) (e : Experiment ν) :
    (c.run e a w).2.exposures = w.exposures

theorem Setting.leavesNoTrace_of_closed {s : Setting σ} (h : s.options.Closed) (a : Value)
    (w : World σ) : s.LeavesNoTrace ν a w where
  assign _ := congrArg Prod.snd (Experiment.store_of_closed h _ w.recording)
  resolve _ := Feature.storeCalls_of_closed h w
  evaluate _ tracker? key :=
    ⟨Catalog.storeCalls_of_closed h tracker? key a w,
      Catalog.exposures_of_closed h tracker? key a w⟩
  run _ hs e := Client.exposures_run_of_closed (by rw [hs]; exact h) e a w

/-- An experiment, then a value forced upon everyone. -/
def Feature.fallingBack : Feature Rat where
  key := "banner"
  default := .null
  rules :=
    [.when none (.experiment (.ofVariations "exp" [.str "a",.str "b"])),
      .when none (.force (.str "plain") [])]

end FlagEngine
