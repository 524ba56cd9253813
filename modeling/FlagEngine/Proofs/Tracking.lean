import FlagEngine.Proofs.Agreement
import Mathlib.Data.List.Forall2

/-! What is reported. A trial reports nothing, whatever comes of it; a call reports once, when all
its trials are over, and only if what it came to is an experiment that was not forced. Over a
session the reports are therefore the findings of that kind, one by one, and a tracker that refuses
them changes nothing but the notes. -/
namespace FlagEngine

variable {ν σ : Type}

namespace Experiment

theorem exposures_stored (e : Experiment ν) (store : Store σ) (subject : String) (w : World σ) :
    (e.stored store subject w).2.exposures = w.exposures := by
  unfold stored
  split
  · rfl
  · split <;> rfl
  · rfl

theorem exposures_write (e : Experiment ν) (store? : Option (Store σ)) (subject : String) (i : Nat)
    (w : World σ) : (e.write store? subject i w).exposures = w.exposures := by
  unfold write
  split
  · rfl
  · dsimp only
    split <;> rfl

variable [Fraction ν]

theorem exposures_place (e : Experiment ν) (store? : Option (Store σ)) (subject : String)
    (w : World σ) : (e.place store? subject w).2.exposures = w.exposures := by
  unfold place
  split
  · rfl
  · exact e.exposures_write store? subject _ w

theorem exposures_enroll (e : Experiment ν) (store? : Option (Store σ)) (subject : String)
    (w : World σ) : (e.enroll store? subject w).2.exposures = w.exposures := by
  cases store? with
  | none => exact e.exposures_place none subject w
  | some store =>
    have hs := e.exposures_stored store subject w
    unfold enroll
    rcases hr : e.stored store subject w with ⟨_ | i,v⟩ <;> rw [hr] at hs
    · simpa only [hr] using (e.exposures_place (some store) subject v).trans hs
    · simpa only [hr] using hs

/-- An assignment reports nothing. -/
theorem exposures_assign (e : Experiment ν) (store? : Option (Store σ)) (o : Options) (a : Value)
    (w : World σ) : (e.assign store? o a w).2.exposures = w.exposures := by
  unfold assign
  rcases e.entry o a with f | x
  · rfl
  · cases x with
    | eligible subject => exact e.exposures_enroll store? subject _
    | _ => rfl

end Experiment

variable [Fraction ν]

theorem RuleBody.exposures_verdict? (s : Setting σ) (feature : String) (i : Nat) (a : Value)
    (w : World σ) (body : RuleBody ν) :
    (body.verdict? s feature i a w).2.exposures = w.exposures := by
  cases body with
  | force value filters => rfl
  | rollout r =>
    unfold verdict?
    dsimp only
    split
    · rfl
    · split <;> rfl
  | experiment e =>
    have he := e.exposures_assign s.store s.options a w
    rcases hr : e.assign s.store s.options a w with ⟨x,v⟩
    rw [hr] at he
    simp only [verdict?,hr]
    rcases x with f | _ | x <;> exact he
  | unknown => rfl

/-- A rule reports nothing, also where it decides. -/
theorem Rule.exposures_verdict? (s : Setting σ) (feature : String) (i : Nat) (a : Value)
    (w : World σ) (r : Rule ν) : (r.verdict? s feature i a w).2.exposures = w.exposures := by
  cases r with
  | invalid reason => rfl
  | when c body =>
    unfold verdict?
    dsimp only
    split
    · rfl
    · split
      · exact body.exposures_verdict? s feature i a _
      · rfl

namespace Feature

theorem exposures_resolveFrom (s : Setting σ) (f : Feature ν) (a : Value) (i : Nat)
    (rs : List (Rule ν)) (w : World σ) :
    (f.resolveFrom s a i rs w).2.exposures = w.exposures := by
  induction rs generalizing i w with
  | nil => rfl
  | cons r rs ih =>
    have hr := r.exposures_verdict? s f.key i a w
    unfold resolveFrom
    rcases hv : r.verdict? s f.key i a w with ⟨fault | _ | v,w'⟩ <;> rw [hv] at hr
    · exact hr
    · exact (ih (i + 1) w').trans hr
    · exact hr

theorem exposures_resolve (s : Setting σ) (f : Feature ν) (a : Value) (w : World σ) :
    (f.resolve s a w).2.exposures = w.exposures :=
  f.exposures_resolveFrom s a 0 f.rules w

end Feature

namespace Catalog

omit [Fraction ν] in
theorem exposures_report (t : Tracker) (x? : Option Exposure) (w : World σ) :
    (report (some t) x? w).exposures = w.exposures ++ x?.toList := by
  cases x? with
  | none => simp [report]
  | some x =>
    simp only [report,Tracker.report]
    split <;> rfl

theorem exposures_evaluate (c : Catalog ν) (s : Setting σ) (t : Tracker) (key : String) (a : Value)
    (w : World σ) :
    (c.evaluate s (some t) key a w).2.exposures = w.exposures ++
      ((c.evaluate s (some t) key a w).1.toOption.bind Decision.exposure?).toList := by
  cases hf : c.get? key with
  | none =>
    rw [evaluate_of_unknown hf]
    simp [Except.toOption,Decision.exposure?]
  | some f =>
    have hr := f.exposures_resolve s a w
    simp only [evaluate,hf]
    rcases hv : f.resolve s a w with ⟨fault | d,w'⟩ <;> rw [hv] at hr
    · simpa [Except.toOption] using hr
    · exact (exposures_report t d.exposure? w').trans (congrArg (· ++ _) hr)

/-- Without a tracker there is nobody to report to. -/
theorem exposures_evaluate_untracked (c : Catalog ν) (s : Setting σ) (key : String) (a : Value)
    (w : World σ) : (c.evaluate s none key a w).2.exposures = w.exposures := by
  cases hf : c.get? key with
  | none => rw [evaluate_of_unknown hf]; rfl
  | some f =>
    have hr := f.exposures_resolve s a w
    simp only [evaluate,hf]
    rcases hv : f.resolve s a w with ⟨fault | d,w'⟩ <;> rw [hv] at hr <;> exact hr

theorem feature_of_evaluate {c : Catalog ν} {s : Setting σ} {tracker? : Option Tracker}
    {key : String} {a : Value} {w : World σ} {d : Decision ν}
    (h : (c.evaluate s tracker? key a w).1 = .ok d) : d.feature = key := by
  cases hf : c.get? key with
  | none =>
    rw [evaluate_of_unknown hf] at h
    rw [← Except.ok.inj h]
  | some f =>
    have hkey : f.key = key := by simpa using List.find?_some hf
    rw [(evaluate_of_get? hf s tracker? a w).1] at h
    unfold Feature.resolve at h
    dsimp only at h
    cases hv : (f.resolveFrom s a 0 f.rules w).1 with
    | error fault => simp [hv,Except.map] at h
    | ok v =>
      simp only [hv,Except.map,Except.ok.injEq] at h
      rw [← h]
      exact hkey

end Catalog

omit [Fraction ν] in
/-- An origin exposes its subject, which it then has, unless it is by force. -/
theorem Origin.exposed?_of_kind (o : Origin ν) :
    (o.kind = .experiment → ∃ h, o.exposed? = some h ∧ o.subject? = some h) ∧
      (o.kind ≠ .experiment → o.exposed? = none) := by
  cases o with
  | forced s => exact ⟨fun h => (by cases h),fun _ => rfl⟩
  | sticky s => exact ⟨fun _ => ⟨s,rfl,rfl⟩,fun h => absurd rfl h⟩
  | placed s n => exact ⟨fun _ => ⟨s,rfl,rfl⟩,fun h => absurd rfl h⟩

/-- What a call that has a tracker came to: a decision on a feature, or the assignment of an
experiment that was run for no feature. -/
inductive Finding (ν : Type)
  | decision (key : String) (d : Decision ν)
  | assignment (experiment : String) (x : Assignment ν)

namespace Finding

omit [Fraction ν]

def kind? : Finding ν → Option DecisionKind
  | .decision _ d => some d.kind
  | .assignment _ (.included i) => some i.origin.kind
  | .assignment _ (.excluded _) => none

def isExperiment (f : Finding ν) : Bool := f.kind? == some .experiment

/-- An exposure names the feature asked for, if one was, and the experiment, the variation and the
subject of the finding, which are all there. -/
def ReportedAs : Finding ν → Exposure → Prop
  | .decision key d, x => x.feature = some key ∧ d.experimentKey? = some x.experiment ∧
      d.variationIndex? = some x.index ∧ d.subject? = some x.subject
  | .assignment key (.included i), x => x.feature = none ∧ x.experiment = key ∧
      x.index = i.index ∧ i.origin.subject? = some x.subject
  | .assignment _ (.excluded _), _ => False

/-- The reports on one finding: one if it is an experiment, else none. -/
def Reports (f : Finding ν) (x? : Option Exposure) : Prop :=
  List.Forall₂ ReportedAs ([f].filter isExperiment) x?.toList

theorem reports_of_experiment {f : Finding ν} {x : Exposure} (hf : f.isExperiment = true)
    (h : f.ReportedAs x) : f.Reports (some x) := by
  unfold Reports
  rw [List.filter_cons_of_pos hf]
  exact .cons h .nil

theorem reports_of_other {f : Finding ν} (hf : f.isExperiment = false) : f.Reports none := by
  unfold Reports
  rw [List.filter_cons_of_neg (by simp [hf])]
  exact .nil

theorem reports_decision (d : Decision ν) : Reports (.decision d.feature d) d.exposure? := by
  cases hv : d.verdict with
  | experiment r k i =>
    have hkind : d.kind = i.origin.kind := by simp only [Decision.kind,hv]
    have hinc : d.inclusion? = some (k, i) := by simp only [Decision.inclusion?,hv]
    obtain ⟨-,hkey,hindex,hsub,-⟩ := Decision.of_inclusion? hinc
    by_cases hk : i.origin.kind = .experiment
    · obtain ⟨h,hexp,hh⟩ := i.origin.exposed?_of_kind.1 hk
      simp only [Decision.exposure?,hv,hexp,Option.map_some]
      exact reports_of_experiment (by simp [isExperiment,kind?,hkind,hk])
        ⟨rfl,hkey,hindex,hsub.trans hh⟩
    · simp only [Decision.exposure?,hv,i.origin.exposed?_of_kind.2 hk,Option.map_none]
      exact reports_of_other (by simp [isExperiment,kind?,hkind,hk])
  | _ =>
    simp only [Decision.exposure?,hv]
    exact reports_of_other (by simp [isExperiment,kind?,Decision.kind,hv])

theorem reports_assignment (key : String) (x : Assignment ν) :
    Reports (.assignment key x) (x.exposure? key) := by
  cases x with
  | excluded s => exact reports_of_other rfl
  | included i =>
    by_cases hk : i.origin.kind = .experiment
    · obtain ⟨h,hexp,hh⟩ := i.origin.exposed?_of_kind.1 hk
      simp only [Assignment.exposure?,hexp,Option.map_some]
      exact reports_of_experiment (by simp [isExperiment,kind?,hk]) ⟨rfl,rfl,rfl,hh⟩
    · simp only [Assignment.exposure?,i.origin.exposed?_of_kind.2 hk,Option.map_none]
      exact reports_of_other (by simp [isExperiment,kind?,hk])

end Finding

namespace Session

/-- What a call comes to, if it has a tracker and returns. The client's tracker is for `ask` and
`run`; `evaluate` brings its own, if any. -/
def finding? (s : Session ν σ) : Call ν → Option (Finding ν)
  | .ask _ key a => (s.client.evaluate key a s.world).1.toOption.map (.decision key)
  | .run e a => (s.client.run e a s.world).1.toOption.map (.assignment e.key)
  | .evaluate c o tracker? key a =>
    tracker?.bind fun _ =>
      (c.evaluate (s.setting o) tracker? key a s.world).1.toOption.map (.decision key)
  | _ => none

def findings (s : Session ν σ) : List (Call ν) → List (Finding ν)
  | [] => []
  | c :: cs => (s.finding? c).toList ++ (s.perform c).2.findings cs

/-- The world reports the findings of experiments, in order, one exposure each. -/
def Reported (w w' : World σ) (fs : List (Finding ν)) : Prop :=
  ∃ xs, w'.exposures = w.exposures ++ xs ∧
    List.Forall₂ Finding.ReportedAs (fs.filter Finding.isExperiment) xs

omit [Fraction ν] in
theorem reported_nil {w w' : World σ} (h : w'.exposures = w.exposures) :
    Reported w w' ([] : List (Finding ν)) :=
  ⟨[],by simp [h],.nil⟩

omit [Fraction ν] in
theorem reported_singleton {w w' : World σ} {f : Finding ν} {x? : Option Exposure}
    (h : w'.exposures = w.exposures ++ x?.toList) (hf : f.Reports x?) : Reported w w' [f] :=
  ⟨x?.toList,h,hf⟩

omit [Fraction ν] in
theorem Reported.append {w w' w'' : World σ} {fs gs : List (Finding ν)} (h : Reported w w' fs)
    (h' : Reported w' w'' gs) : Reported w w'' (fs ++ gs) := by
  obtain ⟨xs,hx,hr⟩ := h
  obtain ⟨ys,hy,hr'⟩ := h'
  refine ⟨xs ++ ys,by rw [hy,hx,List.append_assoc],?_⟩
  rw [List.filter_append]
  exact List.rel_append hr hr'

theorem reported_evaluate (c : Catalog ν) (s : Setting σ) (t : Tracker) (key : String) (a : Value)
    (w : World σ) :
    Reported w (c.evaluate s (some t) key a w).2
      ((c.evaluate s (some t) key a w).1.toOption.map (Finding.decision key)).toList := by
  have hx := c.exposures_evaluate s t key a w
  cases hd : (c.evaluate s (some t) key a w).1 with
  | error fault => exact reported_nil (by simpa [hd,Except.toOption] using hx)
  | ok d =>
    obtain rfl := Catalog.feature_of_evaluate hd
    exact reported_singleton (by simpa [hd,Except.toOption] using hx) (Finding.reports_decision d)

/-- One call reports its finding, if it is an experiment, and nothing else. -/
theorem reported_perform {s : Session ν σ} {t : Tracker} (ht : s.client.tracker = some t)
    (c : Call ν) : Reported s.world (s.perform c).2.world (s.finding? c).toList := by
  cases c with
  | ask q key a =>
    have h := reported_evaluate s.client.catalog s.client.setting t key a.orEmpty s.world
    rw [← ht] at h
    exact h
  | run e a =>
    have he := e.exposures_assign s.client.setting.store s.client.setting.options a.orEmpty s.world
    simp only [perform,answer,finding?,Client.run]
    rcases hr : e.assign s.client.setting.store s.client.setting.options a.orEmpty s.world
      with ⟨fault | x,w'⟩ <;> rw [hr] at he
    · exact reported_nil he
    · refine reported_singleton ?_ (Finding.reports_assignment e.key x)
      rw [ht]
      exact (Catalog.exposures_report t _ w').trans (congrArg (· ++ _) he)
  | evaluate c o tracker? key a =>
    cases tracker? with
    | none => exact reported_nil (c.exposures_evaluate_untracked (s.setting o) key a s.world)
    | some t => exact reported_evaluate c (s.setting o) t key a s.world
  | resolve f o a => exact reported_nil (f.exposures_resolve (s.setting o) a s.world)
  | assign e o a => exact reported_nil (e.exposures_assign s.client.setting.store o a s.world)
  | setCatalog c => exact reported_nil rfl

theorem reported_after {s : Session ν σ} {t : Tracker} (ht : s.client.tracker = some t)
    (cs : List (Call ν)) : Reported s.world (s.after cs).world (s.findings cs) := by
  induction cs generalizing s with
  | nil => exact reported_nil rfl
  | cons c cs ih =>
    have ht' : (s.perform c).2.client.tracker = some t := by
      rw [← ht]
      cases c <;> rfl
    exact (reported_perform ht c).append (ih ht')

/-- The session with another tracker. -/
def withTracker (s : Session ν σ) (t : Tracker) : Session ν σ :=
  { s with client := { s.client with tracker := some t } }

/-- Sessions that differ in their notes, and in what their trackers take. -/
structure Agrees (s s' : Session ν σ) : Prop where
  catalog : s.client.catalog = s'.client.catalog
  setting : s.client.setting = s'.client.setting
  tracker : s.client.tracker.isSome = s'.client.tracker.isSome
  world : s.world.Agrees s'.world

omit [Fraction ν] in
theorem Agrees.answer {α : Type} {s s' : Session ν σ} (h : s.Agrees s') (reply : α → Reply ν)
    {r r' : Except Fault α × World σ} (hr : World.Alike r r') :
    (s.answer reply r).1 = (s'.answer reply r').1 ∧
      (s.answer reply r).2.Agrees (s'.answer reply r').2 :=
  ⟨congrArg (Except.map reply) hr.1,h.catalog,h.setting,h.tracker,hr.2⟩

theorem Agrees.evaluate {s s' : Session ν σ} (h : s.Agrees s') (key : String) (a : Value) :
    World.Alike (s.client.evaluate key a s.world) (s'.client.evaluate key a s'.world) := by
  unfold Client.evaluate
  rw [h.catalog,h.setting]
  exact Catalog.evaluate_alike (fun f _ => f.equates_self _) _ h.tracker h.world

theorem Agrees.run {s s' : Session ν σ} (h : s.Agrees s') (e : Experiment ν) (a : Value) :
    World.Alike (s.client.run e a s.world) (s'.client.run e a s'.world) := by
  have he : e.Equates a.orEmpty a.orEmpty := .refl e _
  obtain ⟨x,v,v',hr,hr',hv⟩ := (Experiment.assign_alike he s'.client.setting.store
    s'.client.setting.options h.world).split
  simp only [Client.run,h.setting,hr,hr']
  cases x with
  | error fault => exact ⟨rfl,hv⟩
  | ok x => exact ⟨rfl,Catalog.report_agrees h.tracker _ hv⟩

/-- Sessions that agree give the same reply and agree afterwards. -/
theorem Agrees.perform {s s' : Session ν σ} (h : s.Agrees s') (c : Call ν) :
    (s.perform c).1 = (s'.perform c).1 ∧ (s.perform c).2.Agrees (s'.perform c).2 := by
  have hset : ∀ o, s.setting o = s'.setting o := fun o => by simp only [Session.setting,h.setting]
  cases c with
  | ask q key a =>
    obtain ⟨hd,hw⟩ := h.evaluate key a
    exact h.answer id ⟨congrArg (Except.map q.read) hd,hw⟩
  | run e a => exact h.answer .assignment (h.run e a)
  | evaluate c o tracker? key a =>
    refine h.answer .decision ?_
    rw [hset]
    exact Catalog.evaluate_alike (fun f _ => f.equates_self _) _ rfl h.world
  | resolve f o a =>
    refine h.answer .decision ?_
    rw [hset]
    exact Feature.resolve_alike (f.equates_self a) _ h.world
  | assign e o a =>
    refine h.answer .assignment ?_
    rw [h.setting]
    exact Experiment.assign_alike (.refl e a) _ o h.world
  | setCatalog c => exact ⟨rfl,rfl,h.setting,h.tracker,h.world⟩

theorem Agrees.after {s s' : Session ν σ} (h : s.Agrees s') (cs : List (Call ν)) :
    s.replies cs = s'.replies cs ∧ (s.after cs).Agrees (s'.after cs) := by
  induction cs generalizing s s' with
  | nil => exact ⟨rfl,h⟩
  | cons c cs ih =>
    obtain ⟨hreply,hagree⟩ := h.perform c
    obtain ⟨hreplies,hafter⟩ := ih hagree
    exact ⟨by simp only [replies,hreply,hreplies],hafter⟩

end Session

/-- A session with a tracker reports exactly those of its findings that are experiments, in their
order and once each, with the feature, the experiment, the variation and the subject of the
finding. With another tracker, such as one that takes no report, the calls have the same replies
and leave the same store and the same reports. -/
theorem exposures_are_experiment_findings (s : Session ν σ) {t : Tracker}
    (ht : s.client.tracker = some t) (calls : List (Call ν)) :
    (∃ xs, (s.after calls).world.exposures = s.world.exposures ++ xs ∧
      List.Forall₂ Finding.ReportedAs ((s.findings calls).filter Finding.isExperiment) xs) ∧
    ∀ t' : Tracker, (s.withTracker t').replies calls = s.replies calls ∧
      ((s.withTracker t').after calls).world.store = (s.after calls).world.store ∧
      ((s.withTracker t').after calls).world.exposures = (s.after calls).world.exposures := by
  refine ⟨Session.reported_after ht calls,fun t' => ?_⟩
  have hagree : (s.withTracker t').Agrees s := ⟨rfl,rfl,by simp [Session.withTracker,ht],.refl _⟩
  obtain ⟨hreplies,hafter⟩ := hagree.after calls
  exact ⟨hreplies,hafter.world.store,hafter.world.exposures⟩

/-- A client whose tracker takes no report. -/
def Session.refusing : Session Rat Memory where
  client := ⟨⟨[⟨"banner",.null,[.when none (.experiment (.ofVariations "exp" [.str "a",.str "b"]))]⟩,
    ⟨"plain",.bool true,[]⟩]⟩,⟨some Memory.store,.default⟩,some ⟨fun _ _ => false⟩⟩
  world := ⟨[],[],[]⟩

def Call.mixed : List (Call Rat) :=
  [.ask .isOn "banner" (.map [(.str "id", .str "u1")]),.ask .decision "plain" .null,
    .run (.ofVariations "inline" [.int 1,.int 2]) (.map [(.str "id", .str "u1")])]

theorem refused_exposures_are_reported :
    (Session.refusing.after Call.mixed).world.exposures.map (fun x => (x.feature, x.experiment)) =
        [(some "banner", "exp"), (none, "inline")] ∧
      List.Forall₂ Finding.ReportedAs
        ((Session.refusing.findings Call.mixed).filter Finding.isExperiment)
        (Session.refusing.after Call.mixed).world.exposures := by
  obtain ⟨⟨xs,hx,hr⟩,-⟩ := exposures_are_experiment_findings Session.refusing rfl Call.mixed
  obtain rfl : _ = xs := hx
  exact ⟨by decide +kernel,hr⟩

end FlagEngine
