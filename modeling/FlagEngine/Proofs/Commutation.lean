import FlagEngine.Proofs.Exclusion
import FlagEngine.Proofs.Repetition
import FlagEngine.Proofs.Tracking

/-! Evaluations on memory that do not meet. What an evaluation does is confined to the entries of
the experiments of its feature for the subjects that its attributes make there: it changes no other,
and no other has a say in what it answers and what it leaves. Evaluations whose entries are apart
therefore answer as if each of them were alone, in whatever order they come. -/
namespace FlagEngine

/-- A set of entries of memory, told by experiment and subject. -/
abbrev Footprint : Type := String → String → Prop

/-- Two memories hold the same in a footprint. -/
def Memory.AgreeOn (P : Footprint) (m m' : Memory) : Prop :=
  ∀ k h, P k h → m.get? k h = m'.get? k h

/-- What is done changes no entry outside of a footprint, and depends on none outside of it. -/
structure Confined {α : Type} (P : Footprint) (f : World Memory → α × World Memory) : Prop where
  frame : ∀ w k h, ¬ P k h → (f w).2.store.get? k h = w.store.get? k h
  answer : ∀ w w', Memory.AgreeOn P w.store w'.store → (f w).1 = (f w').1
  left : ∀ w w', Memory.AgreeOn P w.store w'.store →
    Memory.AgreeOn P (f w).2.store (f w').2.store

namespace Confined

variable {α β : Type} {P Q : Footprint} {f : World Memory → α × World Memory}

theorem mono (hf : Confined P f) (hPQ : ∀ k h, P k h → Q k h) : Confined Q f where
  frame w k h hQ := hf.frame w k h fun hP => hQ (hPQ k h hP)
  answer w w' hw := hf.answer w w' fun k h hP => hw k h (hPQ k h hP)
  left w w' hw k h hQ := by
    by_cases hP : P k h
    -- Beyond the smaller footprint nothing has moved, so that agreement there is what it was.
    · exact hf.left w w' (fun k h hP => hw k h (hPQ k h hP)) k h hP
    · rw [hf.frame w k h hP,hf.frame w' k h hP,hw k h hQ]

/-- What leaves memory alone and always answers the same is confined to nothing. -/
theorem of_unmoved (hstore : ∀ w, (f w).2.store = w.store) (hanswer : ∀ w w', (f w).1 = (f w').1) :
    Confined P f where
  frame w k h _ := by rw [hstore]
  answer w w' _ := hanswer w w'
  left w w' hw k h hP := by rw [hstore,hstore,hw k h hP]

/-- Only the answer and memory count. -/
theorem congr (hf : Confined P f) {g : World Memory → β × World Memory} {φ : α → β}
    (hanswer : ∀ w, (g w).1 = φ (f w).1) (hstore : ∀ w, (g w).2.store = (f w).2.store) :
    Confined P g where
  frame w k h hP := by rw [hstore,hf.frame w k h hP]
  answer w w' hw := by rw [hanswer,hanswer,hf.answer w w' hw]
  left w w' hw k h hP := by rw [hstore,hstore,hf.left w w' hw k h hP]

/-- What was noted before does not count. -/
theorem after_notes (hf : Confined P f) (es : List Event) : Confined P fun w => f (w.noteAll es) where
  frame w := hf.frame (w.noteAll es)
  answer w w' := hf.answer (w.noteAll es) (w'.noteAll es)
  left w w' := hf.left (w.noteAll es) (w'.noteAll es)

theorem bind (hf : Confined P f) {g : α → World Memory → β × World Memory}
    (hg : ∀ x, Confined P (g x)) {l : World Memory → β × World Memory}
    (hl : ∀ w, l w = g (f w).1 (f w).2) : Confined P l where
  frame w k h hP := by rw [hl,(hg _).frame _ k h hP,hf.frame w k h hP]
  answer w w' hw := by
    rw [hl,hl,hf.answer w w' hw]
    exact (hg _).answer _ _ (hf.left w w' hw)
  left w w' hw := by
    rw [hl,hl,hf.answer w w' hw]
    exact (hg _).left _ _ (hf.left w w' hw)

end Confined

variable {ν : Type} [Fraction ν]

/-- The entry of an experiment for the subject that the attributes make. -/
def Experiment.footprint (e : Experiment ν) (a : Value) : Footprint :=
  fun k h => e.key = k ∧ e.subject? a = some h

namespace Experiment

variable {e : Experiment ν} {a : Value} {o : Options} {m m' : Memory}

theorem course_congr (h : Memory.AgreeOn (e.footprint a) m m') :
    e.course o a m = e.course o a m' := by
  unfold course
  split <;> try rfl
  next subject hentry =>
  have hheld : e.held? m subject = e.held? m' subject :=
    held?_congr (h e.key subject ⟨rfl,(entry_eq_eligible hentry).1⟩)
  simp only [enrollment,hheld]

omit [Fraction ν] in
theorem agreeOn_memory {P : Footprint} (h : Memory.AgreeOn P m m') (c : Course ν) :
    Memory.AgreeOn P (c.memory e m) (c.memory e m') := by
  cases c with
  | drawn subject i n =>
    intro k l hP
    simp only [Course.memory]
    by_cases hkl : (k,l) = (e.key,subject)
    · obtain ⟨rfl,rfl⟩ := Prod.mk.inj hkl
      rw [Memory.get?_set_self,Memory.get?_set_self]
    · rw [Memory.get?_set_of_ne m _ hkl,Memory.get?_set_of_ne m' _ hkl,h k l hP]
  | _ => exact h

/-- An assignment writes down nothing but the index of its own subject. -/
theorem get?_memory_course {k l : String} (h : ¬ e.footprint a k l) :
    ((e.course o a m).memory e m).get? k l = m.get? k l := by
  cases hc : e.course o a m with
  | drawn subject i n =>
    have hsubject := (entry_eq_eligible (course_eq_drawn hc).1).1
    refine Memory.get?_set_of_ne m _ fun hkl => h ?_
    obtain ⟨rfl,rfl⟩ := Prod.mk.inj hkl
    exact ⟨rfl,hsubject⟩
  | _ => rfl

theorem confined_assign (e : Experiment ν) (o : Options) (a : Value) :
    Confined (e.footprint a) (e.assign (some Memory.store) o a) where
  frame w k l h := by rw [store_assign,get?_memory_course h]
  answer w w' h := by rw [outcome_assign,outcome_assign,course_congr h]
  left w w' h := by
    rw [store_assign,store_assign,course_congr h]
    exact agreeOn_memory h _

end Experiment

/-- What a rule of an experiment makes of an assignment. -/
def Assignment.verdict? (index : Nat) (key : String) : Assignment ν → Option (Verdict ν)
  | .excluded _ => none
  | .included x => if x.passthrough then none else some (.experiment index key x)

/-- The experiment of a rule, if it has one. -/
def Rule.experiment? : Rule ν → Option (Experiment ν)
  | .when _ (.experiment e) => some e
  | _ => none

def Feature.experiments (f : Feature ν) : List (Experiment ν) := f.rules.filterMap Rule.experiment?

/-- The experiments of a feature; a feature that is not there has none. -/
def Catalog.experiments (c : Catalog ν) (key : String) : List (Experiment ν) :=
  ((c.get? key).map Feature.experiments).getD []

section Confinement

variable {s : Setting Memory} (hs : s.store = some Memory.store) {a : Value} {P : Footprint}
include hs

theorem RuleBody.confined_verdict? (body : RuleBody ν)
    (hP : ∀ e, body = .experiment e → ∀ k h, e.footprint a k h → P k h) (feature : String)
    (i : Nat) : Confined P fun w => body.verdict? s feature i a w := by
  cases body with
  | force value filters => exact .of_unmoved (fun _ => rfl) fun _ _ => rfl
  | rollout r =>
    unfold verdict?
    dsimp only
    split
    · exact .of_unmoved (fun _ => rfl) fun _ _ => rfl
    · cases r.covered? a <;> exact .of_unmoved (fun _ => rfl) fun _ _ => rfl
  | experiment e =>
    have hassign := (e.confined_assign s.options a).mono (hP e rfl)
    refine hassign.congr (φ := Except.map (Assignment.verdict? i e.key)) ?_ ?_
    all_goals
      intro w
      simp only [verdict?,hs]
      rcases e.assign (some Memory.store) s.options a w with ⟨_ | _ | _,w⟩ <;> rfl
  | unknown => exact .of_unmoved (fun _ => rfl) fun _ _ => rfl

theorem Rule.confined_verdict? (r : Rule ν)
    (hP : ∀ e ∈ r.experiment?, ∀ k h, e.footprint a k h → P k h) (feature : String) (i : Nat) :
    Confined P fun w => r.verdict? s feature i a w := by
  cases r with
  | invalid reason => exact .of_unmoved (fun _ => rfl) fun _ _ => rfl
  | when c? body =>
    unfold verdict?
    dsimp only
    split
    · exact .of_unmoved (fun _ => rfl) fun _ _ => rfl
    · split
      · refine (RuleBody.confined_verdict? hs body (fun e he => hP e ?_) feature i).after_notes _
        rw [he]
        rfl
      · exact .of_unmoved (fun _ => rfl) fun _ _ => rfl

theorem Feature.confined_resolveFrom (f : Feature ν) (i : Nat) {rs : List (Rule ν)}
    (hP : ∀ e ∈ rs.filterMap Rule.experiment?, ∀ k h, e.footprint a k h → P k h) :
    Confined P fun w => f.resolveFrom s a i rs w := by
  induction rs generalizing i with
  | nil => exact .of_unmoved (fun _ => rfl) fun _ _ => rfl
  | cons r rs ih =>
    have hrule : Confined P fun w => r.verdict? s f.key i a w := by
      refine r.confined_verdict? hs (fun e he => hP e ?_) f.key i
      exact List.mem_filterMap.mpr ⟨r,List.mem_cons_self,he⟩
    have hrest : Confined P fun w => f.resolveFrom s a (i + 1) rs w := by
      refine ih (i + 1) fun e he => hP e ?_
      obtain ⟨r',hr',he⟩ := List.mem_filterMap.mp he
      exact List.mem_filterMap.mpr ⟨r',List.mem_cons_of_mem _ hr',he⟩
    refine hrule.bind (g := fun
      | .error fault, w => (.error fault,w)
      | .ok (some v), w => (.ok v,w)
      | .ok none, w => f.resolveFrom s a (i + 1) rs w) ?_ ?_
    · rintro (fault | _ | v)
      · exact .of_unmoved (fun _ => rfl) fun _ _ => rfl
      · exact hrest
      · exact .of_unmoved (fun _ => rfl) fun _ _ => rfl
    · intro w
      simp only [resolveFrom]
      rcases r.verdict? s f.key i a w with ⟨_ | _ | _,w⟩ <;> rfl

/-- An evaluation is confined to the entries of its experiments for the subjects it is about. -/
theorem Catalog.confined_evaluate (c : Catalog ν) (tracker? : Option Tracker) (key : String)
    (hP : ∀ e ∈ c.experiments key, ∀ k h, e.footprint a k h → P k h) :
    Confined P (c.evaluate s tracker? key a) := by
  cases hf : c.get? key with
  | none =>
    refine .of_unmoved (fun w => ?_) fun w w' => ?_
    · rw [evaluate_of_unknown hf,World.store_note]
    · rw [evaluate_of_unknown hf,evaluate_of_unknown hf]
  | some f =>
    have hresolve : Confined P fun w => f.resolveFrom s a 0 f.rules w := by
      refine f.confined_resolveFrom hs 0 fun e he => hP e ?_
      simpa only [experiments,hf,Option.map_some,Option.getD_some,Feature.experiments] using he
    refine hresolve.congr (φ := Except.map fun v => ⟨f.key,v⟩) (fun w => ?_) fun w => ?_
    · rw [(evaluate_of_get? hf s tracker? a w).1]
      rfl
    · rw [(evaluate_of_get? hf s tracker? a w).2]
      rfl

end Confinement

/-- Asks for the decision on a feature for attributes. -/
structure Inquiry where
  feature : String
  attributes : Value

/-- What comes of an inquiry: the decision, and what was reported on the way. -/
structure Response (ν : Type) where
  decision : Except Fault (Decision ν)
  reported : List Exposure

namespace Catalog

variable {σ : Type}

def respond (c : Catalog ν) (s : Setting σ) (tracker? : Option Tracker) (q : Inquiry)
    (w : World σ) : Response ν × World σ :=
  let (d, w') := c.evaluate s tracker? q.feature q.attributes w
  (⟨d,w'.exposures.drop w.exposures.length⟩, w')

/-- Responds to one inquiry after the other. -/
def respondAll (c : Catalog ν) (s : Setting σ) (tracker? : Option Tracker) :
    List Inquiry → World σ → List (Response ν) × World σ
  | [], w => ([], w)
  | q :: qs, w =>
    let (r, w) := c.respond s tracker? q w
    let (rs, w) := c.respondAll s tracker? qs w
    (r :: rs, w)

/-- No experiment of the one has both the key and the subject of an experiment of the other. -/
def Unrelated (c : Catalog ν) (q r : Inquiry) : Prop :=
  ∀ e ∈ c.experiments q.feature, ∀ d ∈ c.experiments r.feature,
    e.key ≠ d.key ∨ e.subject? q.attributes ≠ d.subject? r.attributes

def footprint (c : Catalog ν) (q : Inquiry) : Footprint :=
  fun k h => ∃ e ∈ c.experiments q.feature, e.footprint q.attributes k h

omit [Fraction ν] in
theorem Unrelated.symm {c : Catalog ν} {q r : Inquiry} (h : c.Unrelated q r) : c.Unrelated r q :=
  fun d hd e he => (h e he d hd).imp Ne.symm Ne.symm

omit [Fraction ν] in
/-- Unrelated inquiries share no entry. -/
theorem Unrelated.apart {c : Catalog ν} {q r : Inquiry} (h : c.Unrelated q r) {k l : String}
    (hq : c.footprint q k l) : ¬ c.footprint r k l := by
  rintro ⟨d,hd,hkey',hsubject'⟩
  obtain ⟨e,he,hkey,hsubject⟩ := hq
  rcases h e he d hd with hne | hne
  · exact hne (hkey.trans hkey'.symm)
  · exact hne (hsubject.trans hsubject'.symm)

theorem respondAll_cons (c : Catalog ν) (s : Setting σ) (tracker? : Option Tracker) (q : Inquiry)
    (qs : List Inquiry) (w : World σ) :
    c.respondAll s tracker? (q :: qs) w =
      ((c.respond s tracker? q w).1 :: (c.respondAll s tracker? qs (c.respond s tracker? q w).2).1,
        (c.respondAll s tracker? qs (c.respond s tracker? q w).2).2) := rfl

variable {s : Setting Memory} (hs : s.store = some Memory.store)
include hs

theorem confined_respond (c : Catalog ν) (tracker? : Option Tracker) (q : Inquiry) :
    Confined (c.footprint q) (c.respond s tracker? q) := by
  have hevaluate : Confined (c.footprint q) (c.evaluate s tracker? q.feature q.attributes) :=
    c.confined_evaluate hs tracker? q.feature fun e he k h hkh => ⟨e,he,hkh⟩
  cases tracker? with
  | none =>
    refine hevaluate.congr (φ := fun d => ⟨d,[]⟩) (fun w => ?_) fun _ => rfl
    simp only [respond,exposures_evaluate_untracked,List.drop_length]
  | some t =>
    refine hevaluate.congr (φ := fun d => ⟨d,(d.toOption.bind Decision.exposure?).toList⟩)
      (fun w => ?_) fun _ => rfl
    simp only [respond,exposures_evaluate,List.drop_left]

variable {c : Catalog ν} {q r : Inquiry} {qs ps : List Inquiry}

/-- After an unrelated inquiry another one finds its own entries as they were. -/
theorem respond_after (h : c.Unrelated q r) (tracker? : Option Tracker) (w : World Memory) :
    (c.respond s tracker? r (c.respond s tracker? q w).2).1 = (c.respond s tracker? r w).1 ∧
      Memory.AgreeOn (c.footprint r)
        (c.respond s tracker? r (c.respond s tracker? q w).2).2.store
        (c.respond s tracker? r w).2.store := by
  have hconfined := c.confined_respond hs tracker?
  have hagree : Memory.AgreeOn (c.footprint r) (c.respond s tracker? q w).2.store w.store :=
    fun k l hr => (hconfined q).frame w k l fun hq => h.apart hq hr
  exact ⟨(hconfined r).answer _ _ hagree,(hconfined r).left _ _ hagree⟩

/-- Unrelated inquiries get the responses that each of them would get alone. -/
theorem respondAll_eq_map (h : qs.Pairwise c.Unrelated) (tracker? : Option Tracker)
    (w : World Memory) :
    (c.respondAll s tracker? qs w).1 = qs.map fun q => (c.respond s tracker? q w).1 := by
  induction qs generalizing w with
  | nil => rfl
  | cons q qs ih =>
    obtain ⟨hq,hqs⟩ := List.pairwise_cons.mp h
    rw [respondAll_cons,ih hqs,List.map_cons]
    refine congrArg (_ :: ·) (List.map_congr_left fun r hr => ?_)
    exact (respond_after hs (hq r hr) tracker? w).1

/-- In its own entries each of them leaves what it would leave alone, and nothing changes where none
of them has an entry. -/
theorem get?_respondAll (h : qs.Pairwise c.Unrelated) (tracker? : Option Tracker)
    (w : World Memory) (k l : String) :
    (∀ q ∈ qs, c.footprint q k l → (c.respondAll s tracker? qs w).2.store.get? k l =
        (c.respond s tracker? q w).2.store.get? k l) ∧
      ((∀ q ∈ qs, ¬ c.footprint q k l) →
        (c.respondAll s tracker? qs w).2.store.get? k l = w.store.get? k l) := by
  induction qs generalizing w with
  | nil => exact ⟨by simp,fun _ => rfl⟩
  | cons q qs ih =>
    obtain ⟨hq,hqs⟩ := List.pairwise_cons.mp h
    obtain ⟨howned,hfree⟩ := ih hqs (c.respond s tracker? q w).2
    rw [respondAll_cons]
    constructor
    -- What the first leaves in its own entries the rest cannot touch; the rest begin on what the
    -- first leaves, which in their entries is what there was.
    · intro r hr hkl
      rcases List.mem_cons.mp hr with rfl | hr
      · exact hfree fun p hp => (hq p hp).apart hkl
      · exact (howned r hr hkl).trans ((respond_after hs (hq r hr) tracker? w).2 k l hkl)
    · intro hno
      obtain ⟨hnoq,hnoqs⟩ := List.forall_mem_cons.mp hno
      exact (hfree hnoqs).trans ((c.confined_respond hs tracker? q).frame w k l hnoq)

omit hs

/-- On memory, pairwise unrelated inquiries are responded to alike in any order, each as if it came
alone, and memory holds the same afterwards. -/
theorem unrelated_evaluations_commute (c : Catalog ν) (o : Options) (tracker? : Option Tracker)
    {qs ps : List Inquiry} (horder : qs.Perm ps) (h : qs.Pairwise c.Unrelated) (w : World Memory) :
    let run := c.respondAll ⟨some Memory.store,o⟩ tracker?
    let alone := fun q => (c.respond ⟨some Memory.store,o⟩ tracker? q w).1
    (run qs w).1 = qs.map alone ∧ (run ps w).1 = ps.map alone ∧
      ∀ k l, (run qs w).2.store.get? k l = (run ps w).2.store.get? k l := by
  intro run alone
  have h' : ps.Pairwise c.Unrelated := horder.pairwise h Unrelated.symm
  refine ⟨respondAll_eq_map rfl h tracker? w,respondAll_eq_map rfl h' tracker? w,fun k l => ?_⟩
  obtain ⟨howned,hfree⟩ := get?_respondAll (s := ⟨some Memory.store,o⟩) rfl h tracker? w k l
  obtain ⟨howned',hfree'⟩ := get?_respondAll (s := ⟨some Memory.store,o⟩) rfl h' tracker? w k l
  by_cases hkl : ∃ q ∈ qs, c.footprint q k l
  · obtain ⟨q,hq,hfoot⟩ := hkl
    exact (howned q hq hfoot).trans (howned' q (horder.mem_iff.mp hq) hfoot).symm
  · have hno : ∀ q ∈ qs, ¬ c.footprint q k l := fun q hq hfoot => hkl ⟨q,hq,hfoot⟩
    exact (hfree hno).trans (hfree' fun q hq => hno q (horder.mem_iff.mpr hq)).symm

section Example

def bannerFor (id : String) : Inquiry := ⟨"banner",.obj [("id",.str id)]⟩

/-- Two rules and two subjects: in either order each subject sees its own variation. -/
theorem two_subjects_commute :
    let run := (shutThenOpen "exp" "other").respondAll ⟨some Memory.store,.default⟩
      (some ⟨fun _ _ => true⟩)
    let w : World Memory := ⟨[],[],[]⟩
    let there := run [bannerFor "u1",bannerFor "u2"] w
    let back := run [bannerFor "u2",bannerFor "u1"] w
    there.1 = back.1.reverse ∧
      (∀ k l, there.2.store.get? k l = back.2.store.get? k l) ∧
      there.1.map Response.reported =
        [[⟨some "banner","other",0,"u1"⟩],[⟨some "banner","other",1,"u2"⟩]] := by
  intro run w there back
  have hid : ∀ e ∈ (shutThenOpen "exp" "other").experiments "banner", e.hashAttribute = "id" := by
    decide
  have hunrelated : (shutThenOpen "exp" "other").Unrelated (bannerFor "u1") (bannerFor "u2") := by
    intro e he d hd
    refine .inr ?_
    rw [Experiment.subject?,Experiment.subject?,hid e he,hid d hd]
    decide
  obtain ⟨hthere,hback,hstore⟩ := unrelated_evaluations_commute (shutThenOpen "exp" "other")
    .default (some ⟨fun _ _ => true⟩) (.swap (bannerFor "u2") (bannerFor "u1") [])
    (List.pairwise_pair.mpr hunrelated) w
  refine ⟨?_,hstore,by decide +kernel⟩
  rw [show there.1 = _ from hthere,show back.1 = _ from hback]
  rfl

end Example
end Catalog
end FlagEngine
