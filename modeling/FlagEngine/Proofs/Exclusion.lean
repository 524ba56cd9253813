import FlagEngine.Proofs.FractionOrder
import FlagEngine.Proofs.Session

/-! Experiments that share out a namespace. A subject lies at one place of a namespace, whatever the
experiment, and an experiment without filters asks its store only about subjects in its own slice.
So of two experiments with slices apart at most one takes a subject in of its own accord, whatever
their stores hold. -/
namespace FlagEngine

variable {ν σ : Type} [Fraction ν]

theorem Bucket.not_has_of_high_le [Fraction.Coherent ν] {b b' : Bucket ν} {n : ν}
    (h : b.high ≤ b'.low) (hn : b.has n = true) : b'.has n = false := by
  have hlt : n < b.high := by simpa using (Bool.and_eq_true_iff.mp hn).2
  have hlow : ¬ b'.low ≤ n := Fraction.Coherent.not_le_of_lt_of_le hlt h
  simp [has,hlow]

theorem Namespace.not_has_of_high_le [Fraction.Coherent ν] {s s' : Namespace ν} {subject : String}
    (hid : s.id = s'.id) (h : s.bucket.high ≤ s'.bucket.low) (hs : s.has subject = true) :
    s'.has subject = false := by
  have hseed : s'.seed = s.seed := by simp only [seed,hid]
  unfold has at hs ⊢
  rw [hseed]
  cases hp : (Hash.point? s.seed subject 1 : Option ν) with
  | none => rfl
  | some n =>
    rw [hp] at hs
    exact Bucket.not_has_of_high_le h hs

namespace Experiment

variable {e : Experiment ν} {o : Options} {a : Value} {subject : String}

theorem admission_eq_eligible {t : String} (h : e.admission o a t = .ok (.eligible subject)) :
    t = subject ∧ e.exclusion? o a t = none := by
  unfold admission at h
  repeat' split at h
  all_goals cases h
  exact ⟨rfl,‹_›⟩

/-- Whoever may be enrolled is the subject of the attributes, and nothing keeps it out. -/
theorem entry_eq_eligible (h : e.entry o a = .ok (.eligible subject)) :
    e.subject? a = some subject ∧ e.exclusion? o a subject = none := by
  unfold entry at h
  -- Every exit but the last is another entry.
  repeat' split at h
  all_goals try cases h
  obtain ⟨rfl,hout⟩ := admission_eq_eligible h
  exact ⟨‹_›,hout⟩

theorem has_of_eligible {s : Namespace ν} (hf : e.filters = []) (hs : e.space = some s)
    (h : e.entry o a = .ok (.eligible subject)) :
    e.subject? a = some subject ∧ s.has subject = true := by
  obtain ⟨hsubject,hout⟩ := entry_eq_eligible h
  refine ⟨hsubject,?_⟩
  by_contra hno
  simp [exclusion?,keptOut?,hf,hs,hno] at hout

/-- The store has no say in an assignment that is settled at the entry, and keeps what it held. -/
theorem assign_of_not_eligible (h : ∀ subject, e.entry o a ≠ .ok (.eligible subject))
    (store? : Option (Store σ)) (w : World σ) :
    e.assign store? o a w = e.assign none o a w ∧ (e.assign store? o a w).2.store = w.store := by
  unfold assign
  cases hx : e.entry o a with
  | error f => exact ⟨rfl,rfl⟩
  | ok x =>
    cases x with
    | excluded r => exact ⟨rfl,rfl⟩
    | forced i => exact ⟨rfl,rfl⟩
    | pinned i => exact ⟨rfl,rfl⟩
    | eligible subject => exact absurd hx (h subject)

/-- The assignment takes a subject in of its own accord: by the store or by the point. -/
def Enrolls (e : Experiment ν) (store? : Option (Store σ)) (o : Options) (a : Value)
    (w : World σ) : Prop :=
  ∃ x, (e.assign store? o a w).1 = .ok (.included x) ∧ x.origin.kind = .experiment

theorem Enrolls.eligible {store? : Option (Store σ)} {w : World σ}
    (h : e.Enrolls store? o a w) : ∃ subject, e.entry o a = .ok (.eligible subject) := by
  obtain ⟨x,hx,hkind⟩ := h
  -- Force is of another kind.
  have hforced : ∀ i s, e.takeIn i (.forced s) = .included x → False := by
    intro i s hi
    rw [(takeIn_eq_included hi).2.1] at hkind
    contradiction
  unfold assign at hx
  cases hentry : e.entry o a with
  | error f => simp [hentry] at hx
  | ok entry =>
    simp only [hentry,Except.ok.injEq] at hx
    cases entry with
    | excluded r => cases hx
    | forced i => exact (hforced i _ hx).elim
    | pinned i => exact (hforced i _ hx).elim
    | eligible subject => exact ⟨subject,rfl⟩

end Experiment

def Trial.Enrolls (t : Trial ν σ) : Prop :=
  t.experiment.Enrolls t.setting.store t.setting.options t.attributes t.world

theorem not_enrolls_of_apart [Fraction.Coherent ν] {e e' : Experiment ν} {s s' : Namespace ν}
    (hf : e.filters = []) (hf' : e'.filters = []) (hs : e.space = some s)
    (hs' : e'.space = some s') (hid : s.id = s'.id) (hapart : s.bucket.high ≤ s'.bucket.low)
    {store? store?' : Option (Store σ)} {o o' : Options} {a a' : Value} {w w' : World σ}
    (hsame : e.subject? a = e'.subject? a') (h : e.Enrolls store? o a w) :
    ¬ e'.Enrolls store?' o' a' w' := by
  intro h'
  obtain ⟨subject,hentry⟩ := h.eligible
  obtain ⟨subject',hentry'⟩ := h'.eligible
  obtain ⟨hsub,hhas⟩ := Experiment.has_of_eligible hf hs hentry
  obtain ⟨hsub',hhas'⟩ := Experiment.has_of_eligible hf' hs' hentry'
  obtain rfl : subject = subject' := Option.some.inj (hsub.symm.trans (hsame.trans hsub'))
  rw [Namespace.not_has_of_high_le hid hapart hhas] at hhas'
  contradiction

/-- Two experiments without filters share a namespace, the slice of the first ending where that of
the second begins, or before. Then no two assignments of one subject to them enroll it in both,
whatever their stores, options and worlds; nor do any two trials of a session, with whatever calls
before, between and after them. And a subject outside the slice of an experiment is neither looked
up nor kept: the assignment is the one without a store, and the store is left alone. -/
theorem namespaces_exclude_each_other [Fraction.Coherent ν] {e e' : Experiment ν}
    {s s' : Namespace ν} (hf : e.filters = []) (hf' : e'.filters = []) (hs : e.space = some s)
    (hs' : e'.space = some s') (hid : s.id = s'.id) (hapart : s.bucket.high ≤ s'.bucket.low) :
    (∀ (store? store?' : Option (Store σ)) (o o' : Options) (a a' : Value) (w w' : World σ),
      e.subject? a = e'.subject? a' →
        ¬ (e.Enrolls store? o a w ∧ e'.Enrolls store?' o' a' w')) ∧
    (∀ (u : Session ν σ) (calls : List (Call ν)), ∀ t ∈ u.trials calls, ∀ t' ∈ u.trials calls,
      t.experiment = e → t'.experiment = e' →
      e.subject? t.attributes = e'.subject? t'.attributes →
        ¬ (t.Enrolls ∧ t'.Enrolls)) ∧
    (∀ (e : Experiment ν) (s : Namespace ν) (a : Value), e.filters = [] → e.space = some s →
      (∀ subject ∈ e.subject? a, s.has subject = false) →
        ∀ (store? : Option (Store σ)) (o : Options) (w : World σ),
          e.assign store? o a w = e.assign none o a w ∧
            (e.assign store? o a w).2.store = w.store) := by
  refine ⟨fun store? store?' o o' a a' w w' hsame h => ?_,?_,?_⟩
  · exact not_enrolls_of_apart hf hf' hs hs' hid hapart hsame h.1 h.2
  · rintro u calls t - t' - rfl rfl hsame ⟨h,h'⟩
    exact not_enrolls_of_apart hf hf' hs hs' hid hapart hsame h h'
  · intro e s a hf hs hout store? o w
    refine Experiment.assign_of_not_eligible (fun subject h => ?_) store? w
    obtain ⟨hsub,hhas⟩ := Experiment.has_of_eligible hf hs h
    rw [hout subject hsub] at hhas
    contradiction

/-- Half of a namespace, of which the experiment takes everyone in. -/
def Experiment.onHalf (key : String) (b : Bucket Float) : Experiment Float :=
  { Experiment.ofVariations key [.str "a",.str "b"] with space := some ⟨"ns1",b⟩ }

/-- Memory that knows a subject of both halves. -/
def Session.sharing : Session Float Memory where
  client := ⟨⟨[]⟩,⟨some Memory.store,.default⟩,none⟩
  world := ⟨(Memory.set [] "exp-a" "user42" 1).set "exp-b" "user42" 0,[],[]⟩

theorem halves_exclude_each_other :
    (Experiment.onHalf "exp-a" ⟨0.0,0.5⟩).Enrolls (some Memory.store) .default
        (.map [(.str "id", .str "user42")]) Session.sharing.world ∧
      ¬ (Experiment.onHalf "exp-b" ⟨0.5,1.0⟩).Enrolls (some Memory.store) .default
        (.map [(.str "id", .str "user42")]) Session.sharing.world := by
  obtain ⟨hone,-,-⟩ := namespaces_exclude_each_other (σ := Memory)
    (show (Experiment.onHalf "exp-a" ⟨0.0,0.5⟩).filters = [] from rfl)
    (show (Experiment.onHalf "exp-b" ⟨0.5,1.0⟩).filters = [] from rfl) rfl rfl rfl
    (show (0.5 : Float) ≤ 0.5 by decide +kernel)
  have hin : (Experiment.onHalf "exp-a" ⟨0.0,0.5⟩).Enrolls (some Memory.store) .default
      (.map [(.str "id", .str "user42")]) Session.sharing.world := ⟨_,rfl,rfl⟩
  exact ⟨hin,fun h => hone _ _ _ _ _ _ _ _ rfl ⟨hin,h⟩⟩

end FlagEngine
