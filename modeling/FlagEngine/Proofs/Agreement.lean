import FlagEngine.Proofs.Session
import Mathlib.Data.List.Forall2

/-! Evaluations that go the same way. What was noted so far is read by nobody, and of the attributes
only the subjects, the filters and the conditions are: where these cannot tell two attributes
apart, and the worlds differ in their notes alone, every answer is the same, and so are the store
and the exposures afterwards. -/
namespace FlagEngine

variable {ν σ : Type}

/-- Worlds with the same store and the same exposures; what was noted may differ. -/
structure World.Agrees (w w' : World σ) : Prop where
  store : w.store = w'.store
  exposures : w.exposures = w'.exposures

namespace World

variable {w w' : World σ}

theorem Agrees.refl (w : World σ) : w.Agrees w := ⟨rfl,rfl⟩

theorem Agrees.note (h : w.Agrees w') (e e' : Event) : (w.note e).Agrees (w'.note e') :=
  ⟨h.store,h.exposures⟩

theorem Agrees.noteAll (h : w.Agrees w') (es es' : List Event) :
    (w.noteAll es).Agrees (w'.noteAll es') :=
  ⟨h.store,h.exposures⟩

theorem Agrees.withStore (h : w.Agrees w') (s : σ) : (w.withStore s).Agrees (w'.withStore s) :=
  ⟨rfl,h.exposures⟩

theorem Agrees.report (h : w.Agrees w') (t t' : Tracker) (x : Exposure) :
    (t.report w x).Agrees (t'.report w' x) := by
  have hx : (w.expose x).Agrees (w'.expose x) :=
    ⟨h.store,congrArg (· ++ [x]) h.exposures⟩
  unfold Tracker.report
  dsimp only
  -- Either report may be refused, which is noted and nothing else.
  split <;> split <;> exact ⟨hx.store,hx.exposures⟩

/-- The same answer, in worlds that agree. -/
def Alike {α : Type} (r r' : α × World σ) : Prop := r.1 = r'.1 ∧ r.2.Agrees r'.2

theorem Alike.split {α : Type} {r r' : α × World σ} (h : Alike r r') :
    ∃ x v v', r = (x, v) ∧ r' = (x, v') ∧ v.Agrees v' := by
  obtain ⟨x,v⟩ := r
  obtain ⟨x',v'⟩ := r'
  obtain ⟨rfl,hv⟩ := h
  exact ⟨x,v,v',rfl,rfl,hv⟩

end World

open World (Alike)

/-- Asking two attributes for a subject comes to the same. -/
structure Value.SameSubject (a b : Value) (name : String) : Prop where
  overlong : a.overlongAt name = b.overlongAt name
  subject : a.subject? name = b.subject? name

/-- The filters see no difference between two attributes. -/
structure Filter.Equates [Fraction ν] (fs : List (Filter ν)) (a b : Value) : Prop where
  stumble : Filter.stumble fs a = Filter.stumble fs b
  keepsOut : Filter.keepsOut fs a = Filter.keepsOut fs b

/-- A condition, if there is one, comes to the same for two attributes. -/
structure Experiment.SameAnswer (c? : Option Condition) (a b : Value) : Prop where
  stumbles : Experiment.stumbles c? a = Experiment.stumbles c? b
  holds : Experiment.holds c? a = Experiment.holds c? b

theorem Value.SameSubject.refl (a : Value) (name : String) : a.SameSubject a name := ⟨rfl,rfl⟩

theorem Filter.Equates.refl [Fraction ν] (fs : List (Filter ν)) (a : Value) :
    Filter.Equates fs a a := ⟨rfl,rfl⟩

theorem Experiment.SameAnswer.refl (c? : Option Condition) (a : Value) :
    Experiment.SameAnswer c? a a := ⟨rfl,rfl⟩

namespace Experiment

/-- The experiment sees no difference between two attributes. -/
structure Equates [Fraction ν] (e : Experiment ν) (a b : Value) : Prop where
  subject : a.SameSubject b e.hashAttribute
  filters : Filter.Equates e.filters a b
  condition : SameAnswer e.condition a b

variable {e : Experiment ν} {a b : Value} {w w' : World σ}

theorem stored_alike (e : Experiment ν) (store : Store σ) (subject : String) (h : w.Agrees w') :
    Alike (e.stored store subject w) (e.stored store subject w') := by
  unfold stored
  rw [h.store]
  split
  · exact ⟨rfl,(h.withStore _).note _ _⟩
  · split
    · exact ⟨rfl,h.withStore _⟩
    · exact ⟨rfl,(h.withStore _).note _ _⟩
  · exact ⟨rfl,h.withStore _⟩

theorem write_agrees (e : Experiment ν) (store? : Option (Store σ)) (subject : String) (i : Nat)
    (h : w.Agrees w') : (e.write store? subject i w).Agrees (e.write store? subject i w') := by
  unfold write
  cases store? with
  | none => exact h
  | some store =>
    dsimp only
    rw [h.store]
    split
    · exact h.withStore _
    · exact (h.withStore _).note _ _

variable [Fraction ν]

theorem Equates.refl (e : Experiment ν) (a : Value) : e.Equates a a :=
  ⟨.refl a _,.refl _ a,.refl _ a⟩

theorem Equates.subject? (h : e.Equates a b) : e.subject? a = e.subject? b := h.subject.subject

theorem entry_congr (h : e.Equates a b) (o : Options) : e.entry o a = e.entry o b := by
  have hkept : ∀ subject, e.keptOut? a subject = e.keptOut? b subject := by
    intro subject
    simp only [keptOut?,h.filters.keepsOut]
  have hadmission : ∀ subject, e.admission o a subject = e.admission o b subject := by
    intro subject
    simp only [admission,stumble?,exclusion?,hkept,h.filters.stumble,h.condition.stumbles,
      h.condition.holds]
  simp only [entry,h.subject.overlong,h.subject?,hadmission]

theorem place_alike (e : Experiment ν) (store? : Option (Store σ)) (subject : String)
    (h : w.Agrees w') : Alike (e.place store? subject w) (e.place store? subject w') := by
  unfold place
  split
  · exact ⟨rfl,h.note _ _⟩
  · exact ⟨rfl,(e.write_agrees store? subject _ h).note _ _⟩

theorem enroll_alike (e : Experiment ν) (store? : Option (Store σ)) (subject : String)
    (h : w.Agrees w') : Alike (e.enroll store? subject w) (e.enroll store? subject w') := by
  cases store? with
  | none => exact e.place_alike none subject h
  | some store =>
    obtain ⟨i?,v,v',hr,hr',hv⟩ := (e.stored_alike store subject h).split
    simp only [enroll,hr,hr']
    cases i? with
    | none => exact e.place_alike (some store) subject hv
    | some i => exact ⟨rfl,hv⟩

theorem assign_alike (he : e.Equates a b) (store? : Option (Store σ)) (o : Options)
    (h : w.Agrees w') : Alike (e.assign store? o a w) (e.assign store? o b w') := by
  unfold assign
  rw [entry_congr he]
  cases e.entry o b with
  | error stop => exact ⟨rfl,h.noteAll _ _⟩
  | ok x =>
    have hn := h.noteAll (e.entryNotes a x) (e.entryNotes b x)
    cases x with
    | excluded r => exact ⟨congrArg (fun s => Except.ok (Assignment.excluded s)) he.subject?,hn⟩
    | forced i => exact ⟨congrArg (fun s => Except.ok (e.takeIn i (.forced s))) he.subject?,hn⟩
    | pinned i => exact ⟨congrArg (fun s => Except.ok (e.takeIn i (.forced s))) he.subject?,hn⟩
    | eligible subject =>
      obtain ⟨hsame,hagree⟩ := e.enroll_alike store? subject hn
      exact ⟨congrArg Except.ok hsame,hagree⟩

end Experiment

variable [Fraction ν]

/-- The body of a rule sees no difference between two attributes. -/
def RuleBody.Equates (a b : Value) : RuleBody ν → Prop
  | .force _ filters => Filter.Equates filters a b
  | .rollout r => Filter.Equates r.filters a b ∧ a.SameSubject b r.hashAttribute
  | .experiment e => e.Equates a b
  | .unknown => True

def Rule.Equates (a b : Value) : Rule ν → Prop
  | .invalid _ => True
  | .when c body => Experiment.SameAnswer c a b ∧ body.Equates a b

def Feature.Equates (f : Feature ν) (a b : Value) : Prop := ∀ r ∈ f.rules, r.Equates a b

theorem Rule.equates_self (r : Rule ν) (a : Value) : r.Equates a a := by
  rcases r with _ | ⟨c,body⟩
  · trivial
  · refine ⟨.refl c a,?_⟩
    cases body with
    | force value filters => exact .refl filters a
    | rollout r => exact ⟨.refl r.filters a,.refl a r.hashAttribute⟩
    | experiment e => exact .refl e a
    | unknown => trivial

theorem Feature.equates_self (f : Feature ν) (a : Value) : f.Equates a a :=
  fun r _ => r.equates_self a

variable {a b : Value} {w w' : World σ}

theorem RuleBody.stumbles_congr {body : RuleBody ν} (hb : body.Equates a b) :
    body.stumbles a = body.stumbles b := by
  cases body with
  | force value filters => exact hb.stumble
  | rollout r => simp only [stumbles,hb.1.stumble,hb.1.keepsOut,hb.2.overlong]
  | experiment e => rfl
  | unknown => rfl

theorem Rule.stumbles_congr {r : Rule ν} (hr : r.Equates a b) : r.stumbles a = r.stumbles b := by
  cases r with
  | invalid reason => rfl
  | when c body =>
    simp only [stumbles,hr.1.stumbles,hr.1.holds,RuleBody.stumbles_congr hr.2]

theorem RuleBody.verdict?_alike {body : RuleBody ν} (hb : body.Equates a b) (s : Setting σ)
    (feature : String) (i : Nat) (h : w.Agrees w') :
    Alike (body.verdict? s feature i a w) (body.verdict? s feature i b w') := by
  cases body with
  | force value filters => exact ⟨by simp only [verdict?,hb.keepsOut],h⟩
  | rollout r =>
    have hcovered : r.covered? a = r.covered? b := by simp only [Rollout.covered?,hb.2.subject]
    simp only [verdict?,hb.1.keepsOut,hcovered]
    split
    · exact ⟨rfl,h⟩
    · split
      · exact ⟨rfl,h⟩
      · exact ⟨rfl,h.note _ _⟩
  | experiment e =>
    obtain ⟨x,v,v',hr,hr',hv⟩ := (Experiment.assign_alike hb s.store s.options h).split
    simp only [verdict?,hr,hr']
    rcases x with f | _ | x <;> exact ⟨rfl,hv⟩
  | unknown => exact ⟨rfl,h.note _ _⟩

theorem Rule.verdict?_alike {r : Rule ν} (hr : r.Equates a b) (s : Setting σ) (feature : String)
    (i : Nat) (h : w.Agrees w') :
    Alike (r.verdict? s feature i a w) (r.verdict? s feature i b w') := by
  cases r with
  | invalid reason => exact ⟨rfl,h.note _ _⟩
  | when c body =>
    have hn := h.noteAll (Experiment.tooLong c a) (Experiment.tooLong c b)
    have hstumbles := Rule.stumbles_congr hr
    unfold verdict?
    dsimp only
    rw [hstumbles,hr.1.holds]
    split
    · exact ⟨rfl,hn⟩
    · split
      · exact RuleBody.verdict?_alike hr.2 s feature i hn
      · exact ⟨rfl,hn.note _ _⟩

/-- Two rules that say the same of two attributes at any place, in worlds that agree. -/
def Rule.SpeaksAs (s : Setting σ) (feature : String) (a b : Value) (r r' : Rule ν) : Prop :=
  ∀ (i : Nat) {w w' : World σ}, w.Agrees w' →
    Alike (r.verdict? s feature i a w) (r'.verdict? s feature i b w')

namespace Feature

variable {f f' : Feature ν} {s : Setting σ}

theorem resolveFrom_alike (hkey : f.key = f'.key) (hdefault : f.default = f'.default)
    {rs rs' : List (Rule ν)} (hrs : List.Forall₂ (Rule.SpeaksAs s f.key a b) rs rs') (i : Nat)
    (h : w.Agrees w') : Alike (f.resolveFrom s a i rs w) (f'.resolveFrom s b i rs' w') := by
  induction hrs generalizing i w w' with
  | nil => exact ⟨congrArg (fun v => Except.ok (Verdict.default v)) hdefault,h⟩
  | cons hr _ ih =>
    obtain ⟨x,v,v',hr,hr',hv⟩ := (hr i h).split
    simp only [resolveFrom,← hkey,hr,hr']
    rcases x with fault | _ | y
    · exact ⟨rfl,hv⟩
    · exact ih (i + 1) hv
    · exact ⟨rfl,hv⟩

/-- Features with the same key and default whose rules say the same. -/
theorem resolve_alike_of_rules (hkey : f.key = f'.key) (hdefault : f.default = f'.default)
    (hrs : List.Forall₂ (Rule.SpeaksAs s f.key a b) f.rules f'.rules) (h : w.Agrees w') :
    Alike (f.resolve s a w) (f'.resolve s b w') := by
  obtain ⟨hsame,hagree⟩ := resolveFrom_alike hkey hdefault hrs 0 h
  refine ⟨?_,hagree⟩
  simp only [resolve,hsame,hkey]

theorem resolve_alike (hf : f.Equates a b) (s : Setting σ) (h : w.Agrees w') :
    Alike (f.resolve s a w) (f.resolve s b w') := by
  refine resolve_alike_of_rules rfl rfl ?_ h
  exact List.forall₂_same.mpr fun r hr i _ _ => Rule.verdict?_alike (hf r hr) s f.key i

end Feature

omit [Fraction ν] in
theorem Catalog.report_agrees {tracker? tracker?' : Option Tracker}
    (ht : tracker?.isSome = tracker?'.isSome) (x? : Option Exposure) (h : w.Agrees w') :
    (report tracker? x? w).Agrees (report tracker?' x? w') := by
  rcases tracker? with _ | t <;> rcases tracker?' with _ | t' <;> cases ht
  · exact h
  · cases x? with
    | none => exact h
    | some x => exact h.report t t' x

/-- Of a tracker it matters only whether there is one, and of a catalog only what is under the
key. -/
theorem Catalog.evaluate_alike_of_get? {c c' : Catalog ν} {key : String} {s : Setting σ}
    (hc : c.get? key = none ∧ c'.get? key = none ∨ ∃ f f', c.get? key = some f ∧
      c'.get? key = some f' ∧ Alike (f.resolve s a w) (f'.resolve s b w'))
    {tracker? tracker?' : Option Tracker} (ht : tracker?.isSome = tracker?'.isSome)
    (h : w.Agrees w') :
    Alike (c.evaluate s tracker? key a w) (c'.evaluate s tracker?' key b w') := by
  rcases hc with ⟨hno,hno'⟩ | ⟨f,f',hf,hf',hresolve⟩
  · rw [evaluate_of_unknown hno,evaluate_of_unknown hno']
    exact ⟨rfl,h.note _ _⟩
  · obtain ⟨x,v,v',hr,hr',hv⟩ := hresolve.split
    simp only [evaluate,hf,hf',hr,hr']
    cases x with
    | error fault => exact ⟨rfl,hv⟩
    | ok d => exact ⟨rfl,report_agrees ht d.exposure? hv⟩

theorem Catalog.evaluate_alike {c : Catalog ν} {key : String}
    (hc : ∀ f ∈ c.get? key, f.Equates a b) (s : Setting σ) {tracker? tracker?' : Option Tracker}
    (ht : tracker?.isSome = tracker?'.isSome) (h : w.Agrees w') :
    Alike (c.evaluate s tracker? key a w) (c.evaluate s tracker?' key b w') := by
  refine evaluate_alike_of_get? ?_ ht h
  cases hf : c.get? key with
  | none => exact .inl ⟨rfl,rfl⟩
  | some f => exact .inr ⟨f,f,rfl,rfl,Feature.resolve_alike (hc f hf) s h⟩

end FlagEngine
