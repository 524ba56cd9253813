import FlagEngine.Proofs.Stickiness

/-! Evaluating a feature again on the memory that its evaluation left. What was placed is then
remembered; nothing else changes, unless a trial that came to nothing is awakened by an index that
a later trial of the same key wrote down. -/
namespace FlagEngine

variable {ν σ : Type}

/-- The origin of the same variation when memory is asked for it. -/
def Origin.remembered : Origin ν → Origin ν
  | .placed s _ => .sticky s
  | o => o

def Inclusion.remembered (x : Inclusion ν) : Inclusion ν := { x with origin := x.origin.remembered }

def Assignment.remembered : Assignment ν → Assignment ν
  | .excluded s => .excluded s
  | .included x => .included x.remembered

def Verdict.remembered : Verdict ν → Verdict ν
  | .experiment r k x => .experiment r k x.remembered
  | v => v

def Decision.remembered (d : Decision ν) : Decision ν := { d with verdict := d.verdict.remembered }

/-- Decisions that differ at most in where a variation was found. -/
structure Decision.Agrees (d d' : Decision ν) : Prop where
  feature : d'.feature = d.feature
  kind : d'.kind = d.kind
  ruleIndex : d'.ruleIndex? = d.ruleIndex?
  value : d'.value = d.value
  experimentKey : d'.experimentKey? = d.experimentKey?
  variationIndex : d'.variationIndex? = d.variationIndex?
  subject : d'.subject? = d.subject?

@[simp] theorem Origin.kind_remembered (o : Origin ν) : o.remembered.kind = o.kind := by
  cases o <;> rfl

@[simp] theorem Origin.subject?_remembered (o : Origin ν) : o.remembered.subject? = o.subject? := by
  cases o <;> rfl

@[simp] theorem Assignment.shown?_remembered (y : Assignment ν) :
    y.remembered.shown? = y.shown?.map Inclusion.remembered := by
  cases y with
  | excluded s => rfl
  | included x => cases hp : x.passthrough <;> simp [remembered,shown?,Inclusion.remembered,hp]

theorem Decision.agrees_remembered (d : Decision ν) : d.Agrees d.remembered := by
  obtain ⟨f,v⟩ := d
  cases v with
  | experiment r k x =>
    constructor <;>
      simp [remembered,Verdict.remembered,Inclusion.remembered,kind,ruleIndex?,value,
        experimentKey?,variationIndex?,inclusion?,subject?]
  | _ => constructor <;> rfl

theorem Experiment.takeIn_remembered (e : Experiment ν) (i : Int) (o : Origin ν) :
    e.takeIn i o.remembered = (e.takeIn i o).remembered := by
  unfold takeIn
  split
  · simp [Assignment.remembered]
  · split
    · simp [Assignment.remembered]
    · rfl

theorem Experiment.held?_congr {e : Experiment ν} {m m' : Memory} {subject : String}
    (h : m'.get? e.key subject = m.get? e.key subject) : e.held? m' subject = e.held? m subject := by
  simp only [held?,h]

variable [Fraction ν]

namespace Experiment

theorem course_of_eligible {e : Experiment ν} {o : Options} {a : Value} {subject : String}
    (h : e.entry o a = .ok (.eligible subject)) (m : Memory) :
    e.course o a m = e.enrollment m subject := by
  simp only [course,h]

theorem exists_outcome_enrollment (e : Experiment ν) (m : Memory) (subject : String) :
    ∃ y, (e.enrollment m subject).outcome e = .ok y :=
  ⟨_,(e.enroll_memory subject ⟨m,[],[]⟩).1⟩

theorem enrollment_again {e : Experiment ν} {m m' : Memory} {subject : String}
    (h : m'.get? e.key subject = ((e.enrollment m subject).memory e m).get? e.key subject) :
    (e.enrollment m' subject).memory e m' = m' ∧
      (e.enrollment m' subject).outcome e =
        ((e.enrollment m subject).outcome e).map Assignment.remembered := by
  cases hh : e.held? m subject with
  | some i =>
    rw [enrollment_of_held hh] at h ⊢
    rw [enrollment_of_held ((held?_congr h).trans hh)]
    exact ⟨rfl,congrArg Except.ok (e.takeIn_remembered i (.sticky subject))⟩
  | none =>
    cases hd : e.draw subject with
    | error r =>
      have hm : e.enrollment m subject = .missed subject := by simp [enrollment,hh,hd]
      rw [hm] at h ⊢
      have hm' : e.enrollment m' subject = .missed subject := by
        simp [enrollment,(held?_congr h).trans hh,hd]
      rw [hm']
      exact ⟨rfl,rfl⟩
    | ok r =>
      obtain ⟨i,n⟩ := r
      have hm : e.enrollment m subject = .drawn subject i n := by simp [enrollment,hh,hd]
      rw [hm] at h ⊢
      have hi : m'.get? e.key subject = some (i : Int) := h.trans (m.get?_set_self _ _ _)
      by_cases hlt : i < e.count
      · rw [enrollment_of_held ((e.held?_eq_some_iff m' subject i).mpr ⟨hi,hlt⟩)]
        exact ⟨rfl,congrArg Except.ok (e.takeIn_remembered i (.placed subject n))⟩
      · -- The index is out of range every time, and written down every time.
        have hh' : e.held? m' subject = none := by
          simp only [held?,hi]
          exact if_neg (by omega)
        have hm' : e.enrollment m' subject = .drawn subject i n := by simp [enrollment,hh',hd]
        rw [hm']
        refine ⟨Memory.set_eq_self hi,?_⟩
        simp only [Course.outcome,e.takeIn_of_count_le _ (Nat.le_of_not_lt hlt)]
        rfl

/-- Where every index that it found or wrote down still leads to one that it holds, a subject is not
written down again. -/
theorem enrollment_again_of_held {e : Experiment ν} {m m' : Memory} {subject : String}
    (hno : ∀ i n, e.enrollment m subject = .drawn subject i n → i < e.count)
    (hin : ∀ i : Nat, i < e.count →
      ((e.enrollment m subject).memory e m).get? e.key subject = some (i : Int) →
      ∃ j, e.held? m' subject = some j) :
    (e.enrollment m' subject).memory e m' = m' := by
  cases hh' : e.held? m' subject with
  | some j => rw [enrollment_of_held hh']; rfl
  | none =>
    cases hd : e.draw subject with
    | error r => simp [enrollment,hh',hd,Course.memory]
    | ok r =>
      obtain ⟨i,n⟩ := r
      exfalso
      cases hh : e.held? m subject with
      | some j =>
        rw [enrollment_of_held hh] at hin
        have hj := (e.held?_eq_some_iff m subject j).mp hh
        obtain ⟨l,hl⟩ := hin j hj.2 hj.1
        simp [hh'] at hl
      | none =>
        have hdrawn : e.enrollment m subject = .drawn subject i n := by simp [enrollment,hh,hd]
        rw [hdrawn] at hin
        obtain ⟨l,hl⟩ := hin i (hno i n hdrawn) (m.get?_set_self _ _ _)
        simp [hh'] at hl

/-- An assignment made again where its entry is as it left it changes nothing and has the same
result, remembered. -/
theorem course_again {e : Experiment ν} {o : Options} {a : Value} {m m' : Memory}
    (h : ∀ subject, e.entry o a = .ok (.eligible subject) →
      m'.get? e.key subject = ((e.course o a m).memory e m).get? e.key subject) :
    (e.course o a m').memory e m' = m' ∧
      (e.course o a m').outcome e = ((e.course o a m).outcome e).map Assignment.remembered := by
  rcases he : e.entry o a with f | x
  · simp [course,he,Course.memory,Course.outcome,Except.map]
  · cases x with
    | excluded r => simp [course,he,Course.memory,Course.outcome,Except.map,Assignment.remembered]
    | forced i =>
      simp only [course,he]
      exact ⟨rfl,congrArg Except.ok (e.takeIn_remembered i (.forced (e.subject? a)))⟩
    | pinned i =>
      simp only [course,he]
      exact ⟨rfl,congrArg Except.ok (e.takeIn_remembered i (.forced (e.subject? a)))⟩
    | eligible subject =>
      have hs := h subject he
      rw [course_of_eligible he m] at hs ⊢
      rw [course_of_eligible he m']
      exact enrollment_again hs

end Experiment

namespace Trial

/-- The same trial on another memory. -/
def again (t : Trial ν Memory) (m : Memory) : Trial ν Memory :=
  { t with world := t.world.withStore m }

/-- No entry that the trial may have asked for has changed since. -/
def Undisturbed (t : Trial ν Memory) (m : Memory) : Prop :=
  ∀ h, t.experiment.entry t.setting.options t.attributes = .ok (.eligible h) →
    m.get? t.experiment.key h = t.after.store.get? t.experiment.key h

/-- Made again, the trial leaves memory alone and shows the same. -/
def Settled (t : Trial ν Memory) (m : Memory) : Prop :=
  (t.again m).after.store = m ∧ (t.again m).shown? = t.shown?.map (Option.map Inclusion.remembered)

/-- The trial came to nothing, but made again it would not. -/
def Awakened (t : Trial ν Memory) (m : Memory) : Prop :=
  t.shown? = .ok none ∧ ∃ x, (t.again m).shown? = .ok (some x)

/-- The subject is drawn for an index that no variation has. -/
def Overshoots (t : Trial ν Memory) : Prop :=
  ∃ h i n, t.course = .drawn h i n ∧ t.experiment.count ≤ i

variable {t : Trial ν Memory}

theorem shown?_eq (ht : t.setting.store = some Memory.store) :
    t.shown? = (t.course.outcome t.experiment).map Assignment.shown? := by
  unfold shown?
  rw [outcome_eq ht]

/-- Of the world, a trial sees the store alone. -/
theorem again_of_store (ht : t.setting.store = some Memory.store) {w : World Memory} {m : Memory}
    (hw : w.store = m) :
    ({ t with world := w } : Trial ν Memory).shown? = (t.again m).shown? ∧
      ({ t with world := w } : Trial ν Memory).after.store = (t.again m).after.store := by
  subst hw
  let u : Trial ν Memory := { t with world := w }
  have hu := shown?_eq (t := u) ht
  have hu' := store_after (t := u) ht
  exact ⟨hu.trans (shown?_eq (t := t.again w.store) ht).symm,
    hu'.trans (store_after (t := t.again w.store) ht).symm⟩

theorem settled_of_undisturbed (ht : t.setting.store = some Memory.store) {m : Memory}
    (h : t.Undisturbed m) : t.Settled m := by
  have hc := Experiment.course_again fun subject he => (h subject he).trans
    (congrArg (Memory.get? · _ _) (store_after ht))
  refine ⟨(store_after (t := t.again m) ht).trans hc.1,?_⟩
  have ho : (t.again m).course.outcome t.experiment =
      (t.course.outcome t.experiment).map Assignment.remembered := hc.2
  rw [shown?_eq ht,shown?_eq (t := t.again m) ht]
  rw [show (t.again m).experiment = t.experiment from rfl,ho]
  cases t.course.outcome t.experiment with
  | error f => rfl
  | ok y => exact congrArg Except.ok y.shown?_remembered

theorem get?_after_of_ne (ht : t.setting.store = some Memory.store) {k : String}
    (hk : t.experiment.key ≠ k) (h : String) :
    t.after.store.get? k h = t.world.store.get? k h := by
  rw [store_after ht]
  cases t.course with
  | drawn h' i n =>
    have hne : (k, h) ≠ (t.experiment.key, h') := fun he => hk (Prod.mk.inj he).1.symm
    exact Memory.get?_set_of_ne t.world.store (i : Int) hne
  | _ => rfl

/-- Trials of different keys do not disturb each other. -/
theorem Linked.undisturbed {m m' : Memory} {ts : List (Trial ν Memory)} (h : Linked m ts m')
    (hts : ∀ t ∈ ts, t.setting.store = some Memory.store)
    (hk : (ts.map (·.experiment.key)).Nodup) : ∀ t ∈ ts, t.Undisturbed m' := by
  induction ts generalizing m with
  | nil => simp
  | cons t ts ih =>
    obtain ⟨hnew,hk⟩ := List.nodup_cons.mp hk
    have hrest : ∀ u ∈ ts, u.setting.store = some Memory.store :=
      fun u hu => hts u (List.mem_cons_of_mem _ hu)
    intro u hu
    rcases List.mem_cons.mp hu with rfl | hu
    · intro h' _
      have hframe : ∀ v ∈ ts, v.world.store.get? u.experiment.key h' =
          u.after.store.get? u.experiment.key h' →
          v.after.store.get? u.experiment.key h' = u.after.store.get? u.experiment.key h' := by
        intro v hv hvs
        have hne : v.experiment.key ≠ u.experiment.key :=
          fun he => hnew (List.mem_map.mpr ⟨v,hv,he⟩)
        exact (get?_after_of_ne (hrest v hv) hne h').trans hvs
      exact (h.2.invariant (P := fun m => m.get? u.experiment.key h' =
        u.after.store.get? u.experiment.key h') rfl hframe).1
    · exact ih h.2 hrest hk u hu

theorem Linked.from_mem {m m' : Memory} {ts : List (Trial ν Memory)} (h : Linked m ts m')
    (ht : t ∈ ts) : ∃ us, us ⊆ ts ∧ Linked t.after.store us m' := by
  induction ts generalizing m with
  | nil => simp at ht
  | cons u ts ih =>
    rcases List.mem_cons.mp ht with rfl | ht
    · exact ⟨ts,List.subset_cons_self _ _,h.2⟩
    · obtain ⟨us,hus,hl⟩ := ih h.2 ht
      exact ⟨us,List.subset_cons_of_subset _ hus,hl⟩

/-- The entry holds an index, and none above a bound. -/
def Bounded (k h : String) (i : Nat) (m : Memory) : Prop :=
  ∃ j : Nat, m.get? k h = some (j : Int) ∧ j ≤ i

/-- An index is replaced only where it is out of range, so by a smaller one. -/
theorem bounded_after (ht : t.setting.store = some Memory.store) (hno : ¬ t.Overshoots)
    {k h : String} {i : Nat} (hb : Bounded k h i t.world.store) : Bounded k h i t.after.store := by
  rw [store_after ht]
  cases hc : t.course with
  | drawn h' j n =>
    obtain ⟨l,hl,hli⟩ := hb
    by_cases hk : (k, h) = (t.experiment.key, h')
    · obtain ⟨rfl,rfl⟩ := Prod.mk.inj hk
      have hj : j < t.experiment.count := Nat.lt_of_not_le fun hj => hno ⟨h,j,n,hc,hj⟩
      have hout : ¬ l < t.experiment.count := by
        intro hlt
        have hh := (t.experiment.held?_eq_some_iff _ h l).mpr ⟨hl,hlt⟩
        simp [(Experiment.course_eq_drawn hc).2.1] at hh
      exact ⟨j,Memory.get?_set_self _ _ _ _,by omega⟩
    · exact ⟨l,(Memory.get?_set_of_ne t.world.store (j : Int) hk).trans hl,hli⟩
  | _ => exact hb

/-- A trial that came to nothing is settled if, made again, it comes to nothing: whatever index it
found or wrote down has at most become smaller, so that it does not draw again. -/
theorem settled_of_idle (ht : t.setting.store = some Memory.store) (hno : ¬ t.Overshoots)
    {m : Memory} (hidle : t.shown? = .ok none) (hm : ∀ h (i : Nat),
      Bounded t.experiment.key h i t.after.store → Bounded t.experiment.key h i m)
    (haw : ¬ t.Awakened m) : t.Settled m := by
  by_cases hel : ∃ h, t.experiment.entry t.setting.options t.attributes = .ok (.eligible h)
  · obtain ⟨h,he⟩ := hel
    have hfirst : t.course = t.experiment.enrollment t.world.store h :=
      Experiment.course_of_eligible he _
    have hagain : (t.again m).course = t.experiment.enrollment m h :=
      Experiment.course_of_eligible he m
    have hmem : (t.experiment.enrollment m h).memory t.experiment m = m := by
      apply Experiment.enrollment_again_of_held (m := t.world.store)
      · intro i n hd
        exact Nat.lt_of_not_le fun hi => hno ⟨h,i,n,hfirst.trans hd,hi⟩
      · intro i hlt hi
        rw [← hfirst,← store_after ht] at hi
        obtain ⟨j,hj,hji⟩ := hm h i ⟨i,hi,Nat.le_refl i⟩
        exact ⟨j,(t.experiment.held?_eq_some_iff m h j).mpr ⟨hj,by omega⟩⟩
    refine ⟨(store_after (t := t.again m) ht).trans (by rw [hagain]; exact hmem),?_⟩
    obtain ⟨y,hy⟩ := t.experiment.exists_outcome_enrollment m h
    have hshown : (t.again m).shown? = .ok y.shown? := by
      rw [shown?_eq (t := t.again m) ht,hagain]
      exact congrArg (Except.map Assignment.shown?) hy
    rw [hidle,hshown]
    cases hx : y.shown? with
    | none => rfl
    | some x => exact absurd ⟨hidle,x,hshown.trans (congrArg _ hx)⟩ haw
  · exact settled_of_undisturbed ht fun h he => absurd ⟨h,he⟩ hel

end Trial

namespace Rule

omit [Fraction ν] in
theorem trial?_again {s : Setting Memory} {a : Value} {w : World Memory} {r : Rule ν}
    {t : Trial ν Memory} (h : r.trial? s a w = some t) (w' : World Memory) :
    ∃ w'' : World Memory, w''.store = w'.store ∧ r.trial? s a w' = some { t with world := w'' } := by
  obtain ⟨c,e,rfl,hc,rfl⟩ := (r.trial?_eq_some_iff s a w t).mp h
  exact ⟨w'.noteAll (Experiment.tooLong c a),rfl,if_pos hc⟩

theorem verdict?_of_trial_again {s : Setting Memory} (hs : s.store = some Memory.store) {a : Value}
    {w : World Memory} {r : Rule ν} {t : Trial ν Memory} (h : r.trial? s a w = some t)
    (feature : String) (index : Nat) (w' : World Memory) :
    (r.verdict? s feature index a w').1 =
        (t.again w'.store).shown?.map (Option.map (.experiment index t.experiment.key)) ∧
      (r.verdict? s feature index a w').2.store = (t.again w'.store).after.store := by
  obtain ⟨w'',hw,ht'⟩ := trial?_again h w'
  have ht : t.setting.store = some Memory.store := by rw [(of_mem_trial? h).1,hs]
  obtain ⟨hshown,hafter⟩ := Trial.again_of_store ht hw
  rw [verdict?_of_trial ht']
  dsimp only
  exact ⟨by rw [hshown],hafter⟩

/-- A rule whose trial is settled says the same again, remembered. -/
theorem verdict?_again {s : Setting Memory} (hs : s.store = some Memory.store) {a : Value}
    {w w' : World Memory} {r : Rule ν} (h : ∀ t ∈ r.trial? s a w, t.Settled w'.store)
    (feature : String) (index : Nat) :
    (r.verdict? s feature index a w').1 =
        (r.verdict? s feature index a w).1.map (Option.map Verdict.remembered) ∧
      (r.verdict? s feature index a w').2.store = w'.store := by
  cases ht : r.trial? s a w with
  | none =>
    obtain ⟨said,hsaid,hw⟩ := verdict?_of_no_trial ht feature index
    rw [(hw w).1,(hw w').1]
    refine ⟨?_,(hw w').2⟩
    rcases said with fault | _ | v
    · rfl
    · rfl
    · cases v with
      | experiment i k x => exact absurd rfl (hsaid i k x)
      | _ => rfl
  | some t =>
    obtain ⟨hsaid,hafter⟩ := verdict?_of_trial_again hs ht feature index w'
    obtain ⟨hm,hshown⟩ := h t ht
    rw [verdict?_of_trial ht,hsaid,hshown]
    refine ⟨?_,hafter.trans hm⟩
    rcases t.shown? with f | _ | x <;> rfl

def experimentKey? : Rule ν → Option String
  | .when _ (.experiment e) => some e.key
  | _ => none

omit [Fraction ν] in
theorem experimentKey?_of_trial {s : Setting σ} {a : Value} {w : World σ} {r : Rule ν}
    {t : Trial ν σ} (h : r.trial? s a w = some t) : r.experimentKey? = some t.experiment.key := by
  obtain ⟨c,e,rfl,hc,rfl⟩ := (r.trial?_eq_some_iff s a w t).mp h
  rfl

end Rule

namespace Feature

theorem keys_trialsFrom (s : Setting σ) (f : Feature ν) (a : Value) (i : Nat) (rs : List (Rule ν))
    (w : World σ) : List.Sublist ((f.trialsFrom s a i rs w).map (·.experiment.key))
      (rs.filterMap Rule.experimentKey?) := by
  induction rs generalizing i w with
  | nil => exact List.Sublist.refl _
  | cons r rs ih =>
    have hcons : (r :: rs).filterMap Rule.experimentKey? =
        r.experimentKey?.toList ++ rs.filterMap Rule.experimentKey? := by
      cases hk : r.experimentKey? <;> simp [hk]
    have hhead : List.Sublist ((r.trial? s a w).toList.map (·.experiment.key))
        r.experimentKey?.toList := by
      cases ht : r.trial? s a w with
      | none => exact List.nil_sublist _
      | some t =>
        rw [Rule.experimentKey?_of_trial ht]
        exact List.Sublist.refl _
    unfold trialsFrom
    rw [List.map_append,hcons]
    refine hhead.append ?_
    split
    · exact ih (i + 1) _
    · exact List.nil_sublist _

theorem le_ruleIndex?_of_resolveFrom {s : Setting σ} {f : Feature ν} {a : Value} {i j : Nat}
    {rs : List (Rule ν)} {w : World σ} {v : Verdict ν}
    (h : (f.resolveFrom s a i rs w).1 = .ok v)
    (hj : (⟨f.key,v⟩ : Decision ν).ruleIndex? = some j) : i ≤ j := by
  induction rs generalizing i w with
  | nil =>
    rw [← Except.ok.inj h] at hj
    simp [Decision.ruleIndex?] at hj
  | cons r rs ih =>
    unfold resolveFrom at h
    rcases hr : r.verdict? s f.key i a w with ⟨fault | _ | v',w'⟩
    · simp [hr] at h
    · exact Nat.le_of_succ_le (ih (by simpa only [hr] using h))
    · obtain rfl : v' = v := by simpa [hr] using h
      have hi := Rule.ruleIndex?_of_verdict? (by rw [hr]) f.key
      rw [hj,Option.some.injEq] at hi
      omega

/-- Only the last trial may come to something. -/
theorem idle_or_last {s : Setting σ} {f : Feature ν} {a : Value} {i : Nat} {rs : List (Rule ν)}
    {w : World σ} {t : Trial ν σ} (h : t ∈ f.trialsFrom s a i rs w) :
    t.shown? = .ok none ∨ (f.resolveFrom s a i rs w).2 = t.after := by
  induction rs generalizing i w with
  | nil => simp [trialsFrom] at h
  | cons r rs ih =>
    unfold trialsFrom at h
    unfold resolveFrom
    rcases List.mem_append.mp h with ht | ht
    · rw [Rule.verdict?_of_trial (Option.mem_toList.mp ht)]
      rcases t.shown? with fault | _ | x
      · exact Or.inr rfl
      · exact Or.inl rfl
      · exact Or.inr rfl
    · rcases hr : r.verdict? s f.key i a w with ⟨fault | _ | v,w'⟩
      · simp [hr] at ht
      · exact ih (by simpa only [hr] using ht)
      · simp [hr] at ht

theorem resolveFrom_again {s : Setting Memory} (hs : s.store = some Memory.store) {f : Feature ν}
    {a : Value} {i : Nat} {rs : List (Rule ν)} {w w' : World Memory}
    (h : ∀ t ∈ f.trialsFrom s a i rs w, t.Settled w'.store) :
    (f.resolveFrom s a i rs w').1 = (f.resolveFrom s a i rs w).1.map Verdict.remembered ∧
      (f.resolveFrom s a i rs w').2.store = w'.store := by
  induction rs generalizing i w w' with
  | nil => exact ⟨rfl,rfl⟩
  | cons r rs ih =>
    have hr := Rule.verdict?_again hs (fun t ht =>
      h t (List.mem_append_left _ (Option.mem_toList.mpr ht))) f.key i
    unfold trialsFrom at h
    unfold resolveFrom
    rcases hv' : r.verdict? s f.key i a w' with ⟨x',w₁'⟩
    rcases hv : r.verdict? s f.key i a w with ⟨fault | _ | v,w₁⟩ <;> rw [hv,hv'] at hr <;>
      obtain ⟨rfl,hw⟩ := hr
    · exact ⟨rfl,hw⟩
    · rw [← hw]
      exact ih fun t ht => hw ▸ h t (List.mem_append_right _ (by simpa only [hv] using ht))
    · exact ⟨rfl,hw⟩

/-- The first trial that is awakened decides, which the first time a later rule did, or none. -/
theorem resolveFrom_of_awakened {s : Setting Memory} (hs : s.store = some Memory.store)
    {f : Feature ν} {a : Value} {i : Nat} {rs : List (Rule ν)} {w w' : World Memory}
    (h : ∀ t ∈ f.trialsFrom s a i rs w, t.Settled w'.store ∨ t.Awakened w'.store)
    (hex : ∃ t ∈ f.trialsFrom s a i rs w, t.Awakened w'.store) :
    ∃ v', (f.resolveFrom s a i rs w').1 = .ok v' ∧ ∀ v, (f.resolveFrom s a i rs w).1 = .ok v →
      (⟨f.key,v'⟩ : Decision ν).ruleIndex? ≠ (⟨f.key,v⟩ : Decision ν).ruleIndex? := by
  induction rs generalizing i w w' with
  | nil => simp [trialsFrom] at hex
  | cons r rs ih =>
    by_cases haw : ∃ t ∈ r.trial? s a w, t.Awakened w'.store
    · obtain ⟨t,ht,hidle,x,hx⟩ := haw
      have hfirst := Rule.verdict?_of_trial ht f.key i
      have hsecond := (Rule.verdict?_of_trial_again hs ht f.key i w').1
      rw [hidle] at hfirst
      rw [hx] at hsecond
      unfold resolveFrom
      rw [hfirst]
      rcases hv' : r.verdict? s f.key i a w' with ⟨x',w₁'⟩
      rw [hv'] at hsecond
      obtain rfl := hsecond
      refine ⟨_,rfl,fun v hv heq => ?_⟩
      have hle := le_ruleIndex?_of_resolveFrom hv heq.symm
      omega
    · have hset : ∀ t ∈ r.trial? s a w, t.Settled w'.store := fun t ht =>
        (h t (List.mem_append_left _ (Option.mem_toList.mpr ht))).resolve_right
          fun hw => haw ⟨t,ht,hw⟩
      have hr := Rule.verdict?_again hs hset f.key i
      unfold trialsFrom at h hex
      unfold resolveFrom
      obtain ⟨u,hu,huaw⟩ := hex
      have hrest := (List.mem_append.mp hu).resolve_left fun hu =>
        haw ⟨u,Option.mem_toList.mp hu,huaw⟩
      rcases hv : r.verdict? s f.key i a w with ⟨fault | _ | v,w₁⟩
      · simp [hv] at hrest
      · rcases hv' : r.verdict? s f.key i a w' with ⟨x',w₁'⟩
        rw [hv,hv'] at hr
        obtain ⟨rfl,hw⟩ := hr
        simp only [hv] at hrest h
        exact ih (fun t ht => hw ▸ h t (List.mem_append_right _ ht)) ⟨u,hrest,hw ▸ huaw⟩
      · simp [hv] at hrest

theorem resolve_of_settled {s : Setting Memory} (hs : s.store = some Memory.store) {f : Feature ν}
    {a : Value} {w w' : World Memory} (h : ∀ t ∈ f.trials s a w, t.Settled w'.store) :
    (f.resolve s a w').1 = (f.resolve s a w).1.map Decision.remembered ∧
      (f.resolve s a w').2.store = w'.store := by
  obtain ⟨hsaid,hstore⟩ := resolveFrom_again hs h
  refine ⟨?_,hstore⟩
  simp only [resolve,hsaid]
  rcases (f.resolveFrom s a 0 f.rules w).1 with fault | v <;> rfl

theorem resolve_of_awakened {s : Setting Memory} (hs : s.store = some Memory.store)
    {f : Feature ν} {a : Value} {w w' : World Memory}
    (h : ∀ t ∈ f.trials s a w, t.Settled w'.store ∨ t.Awakened w'.store)
    (hex : ∃ t ∈ f.trials s a w, t.Awakened w'.store) :
    ∃ d', (f.resolve s a w').1 = .ok d' ∧
      ∀ d, (f.resolve s a w).1 = .ok d → d'.ruleIndex? ≠ d.ruleIndex? := by
  obtain ⟨v',hv',hne⟩ := resolveFrom_of_awakened hs h hex
  refine ⟨⟨f.key,v'⟩,by simp only [resolve,hv']; rfl,fun d hd => ?_⟩
  cases hv : (f.resolveFrom s a 0 f.rules w).1 with
  | error fault => simp [resolve,hv,Except.map] at hd
  | ok v =>
    simp only [resolve,hv,Except.map,Except.ok.injEq] at hd
    rw [← hd]
    exact hne v hv

end Feature

namespace Catalog

variable {c : Catalog ν} {s : Setting Memory} (tracker? : Option Tracker) {key : String} {a : Value}
  {w w' : World Memory}

/-- If every trial is settled, the call says the same again, remembered. -/
theorem evaluate_of_settled (hs : s.store = some Memory.store)
    (h : ∀ t ∈ c.trials s key a w, t.Settled w'.store) :
    (c.evaluate s tracker? key a w').1 =
        (c.evaluate s tracker? key a w).1.map Decision.remembered ∧
      (c.evaluate s tracker? key a w').2.store = w'.store := by
  cases hf : c.get? key with
  | none =>
    rw [evaluate_of_unknown hf,evaluate_of_unknown hf]
    exact ⟨rfl,rfl⟩
  | some f =>
    have hfirst := evaluate_of_get? hf s tracker? a w
    have hsecond := evaluate_of_get? hf s tracker? a w'
    rw [trials_of_get? hf] at h
    rw [hfirst.1,hsecond.1,hsecond.2]
    exact Feature.resolve_of_settled hs h

/-- If a trial is awakened, another rule decides. -/
theorem evaluate_of_awakened (hs : s.store = some Memory.store)
    (h : ∀ t ∈ c.trials s key a w, t.Settled w'.store ∨ t.Awakened w'.store)
    (hex : ∃ t ∈ c.trials s key a w, t.Awakened w'.store) :
    ∃ d', (c.evaluate s tracker? key a w').1 = .ok d' ∧
      ∀ d, (c.evaluate s tracker? key a w).1 = .ok d → d'.ruleIndex? ≠ d.ruleIndex? := by
  cases hf : c.get? key with
  | none =>
    rw [trials_of_unknown hf] at hex
    simp at hex
  | some f =>
    have hfirst := evaluate_of_get? hf s tracker? a w
    have hsecond := evaluate_of_get? hf s tracker? a w'
    rw [trials_of_get? hf] at h hex
    rw [hfirst.1,hsecond.1]
    exact Feature.resolve_of_awakened hs h hex

theorem idle_or_last {t : Trial ν Memory} (h : t ∈ c.trials s key a w) :
    t.shown? = .ok none ∨ (c.evaluate s tracker? key a w).2.store = t.after.store := by
  cases hf : c.get? key with
  | none =>
    rw [trials_of_unknown hf] at h
    simp at h
  | some f =>
    rw [trials_of_get? hf] at h
    rw [(evaluate_of_get? hf s tracker? a w).2]
    exact (Feature.idle_or_last h).imp_right fun hlast => congrArg World.store hlast

theorem store_of_mem_trials (hs : s.store = some Memory.store) {t : Trial ν Memory}
    (h : t ∈ c.trials s key a w) : t.setting.store = some Memory.store := by
  rw [(of_mem_trials h).1,hs]

/-- Where no trial draws an index that no variation has, each is settled or awakened. -/
theorem settled_or_awakened (hs : s.store = some Memory.store)
    (hno : ∀ t ∈ c.trials s key a w, ¬ t.Overshoots) {t : Trial ν Memory}
    (ht : t ∈ c.trials s key a w) :
    t.Settled (c.evaluate s tracker? key a w).2.store ∨
      t.Awakened (c.evaluate s tracker? key a w).2.store := by
  have hts := store_of_mem_trials hs ht
  rcases idle_or_last tracker? ht with hidle | hlast
  · by_cases haw : t.Awakened (c.evaluate s tracker? key a w).2.store
    · exact Or.inr haw
    · refine Or.inl (Trial.settled_of_idle hts (hno t ht) hidle (fun h i hb => ?_) haw)
      obtain ⟨us,hus,hl⟩ := (c.linked_trials s tracker? key a w).from_mem ht
      exact (hl.invariant hb fun u hu =>
        Trial.bounded_after (store_of_mem_trials hs (hus hu)) (hno u (hus hu))).1
  · exact Or.inl (Trial.settled_of_undisturbed hts fun h he => by rw [hlast])

/-- Rules of different keys do not disturb each other. -/
theorem undisturbed_of_nodup (hs : s.store = some Memory.store)
    (hk : ∀ f ∈ c.get? key, (f.rules.filterMap Rule.experimentKey?).Nodup) :
    ∀ t ∈ c.trials s key a w, t.Undisturbed (c.evaluate s tracker? key a w).2.store := by
  apply (c.linked_trials s tracker? key a w).undisturbed
  · exact fun t ht => store_of_mem_trials hs ht
  · cases hf : c.get? key with
    | none =>
      rw [trials_of_unknown hf]
      exact List.nodup_nil
    | some f =>
      rw [trials_of_get? hf]
      exact (f.keys_trialsFrom s a 0 f.rules w).nodup (hk f hf)

/-- The same call, on the world that it left, agrees with the decision that it gave, and leaves
memory alone. -/
def Repeats (c : Catalog ν) (s : Setting Memory) (tracker? : Option Tracker) (key : String)
    (a : Value) (w : World Memory) (d : Decision ν) : Prop :=
  let w' := (c.evaluate s tracker? key a w).2
  ∃ d', (c.evaluate s tracker? key a w').1 = .ok d' ∧ d.Agrees d' ∧
    (c.evaluate s tracker? key a w').2.store = w'.store

theorem repeats_of_settled (hs : s.store = some Memory.store) {d : Decision ν}
    (hd : (c.evaluate s tracker? key a w).1 = .ok d)
    (h : ∀ t ∈ c.trials s key a w, t.Settled (c.evaluate s tracker? key a w).2.store) :
    c.Repeats s tracker? key a w d := by
  have hr := evaluate_of_settled tracker? hs h
  rw [hd] at hr
  exact ⟨d.remembered,hr.1,d.agrees_remembered,hr.2⟩

/-- A call repeats itself if the experiments of the feature have pairwise different keys, and
whenever no entry that one of its trials may have asked for has changed when it ends. Where no trial
draws an index that no variation has, it repeats itself exactly if no trial that came to nothing
comes to something in the memory that the call left. -/
theorem evaluate_repeats_iff (c : Catalog ν) (s : Setting Memory) (tracker? : Option Tracker)
    (key : String) (a : Value) (w : World Memory) (d : Decision ν)
    (hs : s.store = some Memory.store) (hd : (c.evaluate s tracker? key a w).1 = .ok d) :
    ((∀ f ∈ c.get? key, (f.rules.filterMap Rule.experimentKey?).Nodup) →
      c.Repeats s tracker? key a w d) ∧
    ((∀ t ∈ c.trials s key a w, t.Undisturbed (c.evaluate s tracker? key a w).2.store) →
      c.Repeats s tracker? key a w d) ∧
    ((∀ t ∈ c.trials s key a w, ¬ t.Overshoots) →
      (c.Repeats s tracker? key a w d ↔
        ∀ t ∈ c.trials s key a w, ¬ t.Awakened (c.evaluate s tracker? key a w).2.store)) := by
  have hundisturbed (h : ∀ t ∈ c.trials s key a w,
      t.Undisturbed (c.evaluate s tracker? key a w).2.store) : c.Repeats s tracker? key a w d :=
    repeats_of_settled tracker? hs hd fun t ht =>
      Trial.settled_of_undisturbed (store_of_mem_trials hs ht) (h t ht)
  refine ⟨fun hk => hundisturbed (undisturbed_of_nodup tracker? hs hk),hundisturbed,fun hno => ?_⟩
  have hor := fun t ht => settled_or_awakened (t := t) tracker? hs hno ht
  constructor
  · rintro ⟨d',hd',hagree,_⟩ t ht haw
    obtain ⟨d'',hd'',hne⟩ := evaluate_of_awakened tracker? hs hor ⟨t,ht,haw⟩
    obtain rfl : d' = d'' := Except.ok.inj (hd'.symm.trans hd'')
    exact hne d hd hagree.ruleIndex
  · intro haw
    exact repeats_of_settled tracker? hs hd fun t ht => (hor t ht).resolve_right (haw t ht)

/-- A rule that is open to nobody, then one that is open to everybody. -/
def shutThenOpen (first second : String) : Catalog Rat :=
  let shut := { Experiment.ofVariations first [.str "a",.str "b"] with coverage := some 0 }
  let wide := Experiment.ofVariations second [.str "c",.str "d"]
  ⟨[⟨"banner",.str "none",[.when none (.experiment shut),.when none (.experiment wide)]⟩]⟩

omit [Fraction ν] in
theorem exists_of_ruleIndex? {r : Except Fault (Decision ν)} {i : Nat}
    (h : r.toOption.bind Decision.ruleIndex? = some i) : ∃ d, r = .ok d ∧ d.ruleIndex? = some i := by
  cases r with
  | error fault => simp [Except.toOption] at h
  | ok d => exact ⟨d,rfl,h⟩

theorem shutThenOpen_repeats_of_two_keys :
    ∃ d, ((shutThenOpen "exp" "other").evaluate ⟨some Memory.store,.default⟩ none "banner"
        (.map [(.str "id", .str "u1")]) ⟨[],[],[]⟩).1 = .ok d ∧ d.ruleIndex? = some 1 ∧
      (shutThenOpen "exp" "other").Repeats ⟨some Memory.store,.default⟩ none "banner"
        (.map [(.str "id", .str "u1")]) ⟨[],[],[]⟩ d := by
  obtain ⟨d,hd,hi⟩ := exists_of_ruleIndex? (i := 1)
    (r := ((shutThenOpen "exp" "other").evaluate ⟨some Memory.store,.default⟩ none "banner"
      (.map [(.str "id", .str "u1")]) ⟨[],[],[]⟩).1) (by decide +kernel)
  refine ⟨d,hd,hi,(evaluate_repeats_iff _ _ _ _ _ _ _ rfl hd).1 ?_⟩
  intro f hf
  obtain rfl := Option.some.inj hf
  decide

/-- Under one key, what the second rule writes down awakens the first. -/
theorem shutThenOpen_changes_under_one_key :
    ∃ d, ((shutThenOpen "exp" "exp").evaluate ⟨some Memory.store,.default⟩ none "banner"
        (.map [(.str "id", .str "u1")]) ⟨[],[],[]⟩).1 = .ok d ∧ d.ruleIndex? = some 1 ∧
      ¬ (shutThenOpen "exp" "exp").Repeats ⟨some Memory.store,.default⟩ none "banner"
        (.map [(.str "id", .str "u1")]) ⟨[],[],[]⟩ d := by
  let w : World Memory := ⟨[],[],[]⟩
  let call := (shutThenOpen "exp" "exp").evaluate ⟨some Memory.store,.default⟩ none "banner"
    (.map [(.str "id", .str "u1")])
  obtain ⟨d,hd,hi⟩ := exists_of_ruleIndex? (r := (call w).1) (i := 1) (by decide +kernel)
  obtain ⟨d₂,hd₂,hi₂⟩ :=
    exists_of_ruleIndex? (r := (call (call w).2).1) (i := 0) (by decide +kernel)
  refine ⟨d,hd,hi,?_⟩
  rintro ⟨d',hd',hagree,_⟩
  obtain rfl : d' = d₂ := Except.ok.inj (hd'.symm.trans hd₂)
  have hsame := hagree.ruleIndex
  rw [hi,hi₂] at hsame
  cases hsame

end Catalog
end FlagEngine
