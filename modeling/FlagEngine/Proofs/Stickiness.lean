import FlagEngine.Proofs.Session

/-! What sessions keep in memory. An index that memory holds for a subject stays there and decides
every later assignment of the subject, as long as the experiments of that key have a variation of
that index. Entries come from trials that place a subject; the one exception is an experiment with
more ranges than variations, which writes down indices that it then refuses. -/
namespace FlagEngine

variable {ν : Type} [Fraction ν]

namespace Bucket

@[simp] theorem length_weightsFor (count : Nat) (ws? : Option (List ν)) :
    (weightsFor count ws?).length = count := by
  unfold weightsFor
  split
  · split
    · rename_i ws hu
      simp only [usable,Bool.and_eq_true,beq_iff_eq] at hu
      exact hu.1.1
    · simp
  · simp

@[simp] theorem length_ranges (count : Nat) (coverage : ν) (ws? : Option (List ν)) :
    (ranges count coverage ws?).length = count := by
  simp [ranges]

theorem lt_length_of_choose {n : ν} {bs : List (Bucket ν)} {i : Nat} (h : choose n bs = some i) :
    i < bs.length := by
  unfold choose at h
  split at h
  · simp at h
  · exact (List.findIdx?_eq_some_iff_getElem.mp h).1

end Bucket

namespace Experiment

theorem lt_length_of_draw {e : Experiment ν} {subject : String} {i : Nat} {n : ν}
    (h : e.draw subject = .ok (i, n)) : i < e.ranges.length := by
  unfold draw at h
  split at h
  · simp at h
  · split at h
    · simp at h
    · rename_i hc
      simp only [Except.ok.injEq,Prod.mk.injEq] at h
      obtain ⟨rfl,rfl⟩ := h
      exact Bucket.lt_length_of_choose hc

/-- The experiment draws the subject for an index that memory does not hold for it. -/
def Writes (e : Experiment ν) (o : Options) (a : Value) (m : Memory) (subject : String) (i : Nat) :
    Prop :=
  (∃ n, e.course o a m = .drawn subject i n) ∧ m.get? e.key subject ≠ some (i : Int)

/-- An index is written down that no variation has. -/
def Overruns (e : Experiment ν) (o : Options) (a : Value) (m : Memory) : Prop :=
  ∃ subject i, e.Writes o a m subject i ∧ e.count ≤ i

/-- Only an experiment with more ranges than variations overruns. -/
theorem count_lt_of_overruns {e : Experiment ν} {o : Options} {a : Value} {m : Memory}
    (h : e.Overruns o a m) : e.count < e.buckets.length := by
  obtain ⟨subject,i,⟨⟨n,hc⟩,_⟩,hi⟩ := h
  have hl := lt_length_of_draw (course_eq_drawn hc).2.2
  unfold ranges at hl
  split at hl
  · simp only [Bucket.length_ranges] at hl
    omega
  · omega

theorem memory_of_writes {e : Experiment ν} {o : Options} {a : Value} {m : Memory} {h : String}
    {i : Nat} (hw : e.Writes o a m h i) : (e.course o a m).memory e m = m.set e.key h i := by
  obtain ⟨⟨n,hc⟩,_⟩ := hw
  rw [hc]
  rfl

/-- Memory changes when something is written, and in no other way. -/
theorem memory_ne_iff_writes (e : Experiment ν) (o : Options) (a : Value) (m : Memory) :
    (e.course o a m).memory e m ≠ m ↔ ∃ h i, e.Writes o a m h i := by
  constructor
  · intro hne
    cases hc : e.course o a m with
    | drawn h i n =>
      refine ⟨h,i,⟨n,hc⟩,fun hm => hne ?_⟩
      rw [hc]
      exact Memory.set_eq_self hm
    | _ => exact absurd (by rw [hc]; rfl) hne
  · rintro ⟨h,i,hw⟩ hm
    rw [memory_of_writes hw] at hm
    exact hw.2 (hm ▸ Memory.get?_set_self m e.key h i)

/-- Whoever is included by being placed has been written down. -/
theorem writes_of_placed {e : Experiment ν} {o : Options} {a : Value} {m : Memory} {x : Inclusion ν}
    (h : (e.course o a m).outcome e = .ok (.included x)) (hx : x.origin.isPlaced = true) :
    ∃ subject, x.origin.subject? = some subject ∧ x.index < e.count ∧
      e.Writes o a m subject x.index := by
  cases hc : e.course o a m with
  | failed f => simp [hc,Course.outcome] at h
  | settled y =>
    have hy : y = .included x := by simpa [hc,Course.outcome] using h
    have hf := isForced_of_settled (hy ▸ hc)
    cases ho : x.origin <;> simp [ho,Origin.isForced,Origin.isPlaced] at hf hx
  | recalled subject i =>
    have ho := (takeIn_eq_included (Except.ok.inj (hc ▸ h))).2.1
    simp [ho,Origin.isPlaced] at hx
  | missed subject => simp [hc,Course.outcome] at h
  | drawn subject i n =>
    obtain ⟨hi,ho,hlt,_⟩ := takeIn_eq_included (Except.ok.inj (hc ▸ h))
    obtain rfl : x.index = i := by omega
    refine ⟨subject,by simp [ho,Origin.subject?],hlt,⟨n,hc⟩,fun hm => ?_⟩
    have hh := (e.held?_eq_some_iff m subject x.index).mpr ⟨hm,hlt⟩
    simp [(course_eq_drawn hc).2.1] at hh

/-- Whoever is written down under an index of a variation is included by being placed. -/
theorem placed_of_writes {e : Experiment ν} {o : Options} {a : Value} {m : Memory} {h : String}
    {i : Nat} (hw : e.Writes o a m h i) (hi : i < e.count) :
    ∃ x, (e.course o a m).outcome e = .ok (.included x) ∧ x.index = i ∧
      x.origin.isPlaced = true ∧ x.origin.subject? = some h := by
  obtain ⟨⟨n,hc⟩,_⟩ := hw
  obtain ⟨x,hx⟩ := e.exists_takeIn_of_lt (.placed h n) hi
  obtain ⟨hxi,ho,_⟩ := takeIn_eq_included hx
  refine ⟨x,by rw [hc]; exact congrArg Except.ok hx,by omega,?_⟩
  rw [ho]
  exact ⟨rfl,rfl⟩

theorem excluded_of_writes {e : Experiment ν} {o : Options} {a : Value} {m : Memory} {h : String}
    {i : Nat} (hw : e.Writes o a m h i) (hi : e.count ≤ i) :
    (e.course o a m).outcome e = .ok (.excluded (some h)) := by
  obtain ⟨⟨n,hc⟩,_⟩ := hw
  rw [hc]
  exact congrArg Except.ok (e.takeIn_of_count_le (.placed h n) hi)

end Experiment

namespace Trial

variable {t : Trial ν Memory}

def course (t : Trial ν Memory) : Course ν :=
  t.experiment.course t.setting.options t.attributes t.world.store

def Writes (t : Trial ν Memory) (subject : String) (i : Nat) : Prop :=
  t.experiment.Writes t.setting.options t.attributes t.world.store subject i

theorem outcome_eq (ht : t.setting.store = some Memory.store) :
    t.outcome = t.course.outcome t.experiment := by
  unfold outcome
  rw [ht]
  exact t.experiment.outcome_assign t.setting.options t.attributes t.world

theorem store_after (ht : t.setting.store = some Memory.store) :
    t.after.store = t.course.memory t.experiment t.world.store := by
  unfold after
  rw [ht]
  exact t.experiment.store_assign t.setting.options t.attributes t.world

/-- A trial leaves an entry alone whose index is one of the experiment. -/
theorem get?_after (ht : t.setting.store = some Memory.store) {k h : String} {i : Nat}
    (hm : t.world.store.get? k h = some (i : Int))
    (hi : t.experiment.key = k → i < t.experiment.count) :
    t.after.store.get? k h = some (i : Int) := by
  rw [store_after ht]
  cases hc : t.course with
  | drawn h' j n =>
    have hne : (k, h) ≠ (t.experiment.key, h') := by
      intro he
      obtain ⟨rfl,rfl⟩ := Prod.mk.inj he
      have hh := (Experiment.held?_eq_some_iff t.experiment _ h i).mpr ⟨hm,hi rfl⟩
      simp [(Experiment.course_eq_drawn hc).2.1] at hh
    exact (Memory.get?_set_of_ne t.world.store (j : Int) hne).trans hm
  | _ => exact hm

/-- A subject whose entry holds an index of the experiment is assigned that index, from memory. -/
theorem index_of_known (ht : t.setting.store = some Memory.store) {h : String} {i : Nat}
    (hm : t.world.store.get? t.experiment.key h = some (i : Int)) (hi : i < t.experiment.count)
    {x : Inclusion ν} (ho : t.outcome = .ok (.included x)) (hk : x.origin.kind = .experiment)
    (hx : x.origin.subject? = some h) : x.index = i ∧ x.origin.isSticky = true := by
  have hh := (Experiment.held?_eq_some_iff t.experiment _ h i).mpr ⟨hm,hi⟩
  rw [outcome_eq ht] at ho
  cases hc : t.course with
  | failed f => simp [hc,Course.outcome] at ho
  | settled y =>
    have hy : y = .included x := by simpa [hc,Course.outcome] using ho
    have hf := Experiment.isForced_of_settled (hy ▸ hc)
    simp [Origin.kind,hf] at hk
  | recalled h' j =>
    have hj := (Experiment.course_eq_recalled hc).2
    have hin := Experiment.takeIn_eq_included (Except.ok.inj (hc ▸ ho))
    rw [hin.2.1] at hx ⊢
    have hh' : h' = h := Option.some.inj hx
    rw [hh',hh] at hj
    exact ⟨by have := hin.1; simp at hj; omega,rfl⟩
  | missed h' => simp [hc,Course.outcome] at ho
  | drawn h' j n =>
    have hj := (Experiment.course_eq_drawn hc).2.1
    have hin := Experiment.takeIn_eq_included (Except.ok.inj (hc ▸ ho))
    rw [hin.2.1] at hx
    have hh' : h' = h := Option.some.inj hx
    rw [hh',hh] at hj
    contradiction

end Trial

/-- An index that memory holds is there after every call, and whoever it is held for is assigned it
from memory, in every trial and in every decision that is given, whatever has become of the
experiments of its key, provided that each of them that is tried still has a variation of that
index. -/
theorem held_index_never_changes (s : Session ν Memory)
    (hs : s.client.setting.store = some Memory.store) (calls : List (Call ν)) (k h : String)
    (i : Nat) (hm : s.world.store.get? k h = some (i : Int))
    (hi : ∀ t ∈ s.trials calls, t.experiment.key = k → i < t.experiment.count) :
    (∀ cs, cs <+: calls → (s.after cs).world.store.get? k h = some (i : Int)) ∧
      (∀ t ∈ s.trials calls, t.after.store.get? k h = some (i : Int) ∧
        (t.experiment.key = k → ∀ x, t.outcome = .ok (.included x) →
          x.origin.kind = .experiment → x.origin.subject? = some h →
          x.index = i ∧ x.origin.isSticky = true)) ∧
      ∀ d, .ok (.decision d) ∈ s.replies calls → d.kind = .experiment →
        d.experimentKey? = some k → d.subject? = some h →
        d.variationIndex? = some i ∧ d.isSticky = true := by
  have hstep : ∀ t ∈ s.trials calls, t.world.store.get? k h = some (i : Int) →
      t.after.store.get? k h = some (i : Int) := fun t ht hw =>
    Trial.get?_after ((Session.store_of_mem_trials ht).trans hs) hw (hi t ht)
  have hall := ((s.linked_trials calls).invariant
    (P := fun m => m.get? k h = some (i : Int)) hm hstep).2
  have hassign : ∀ t ∈ s.trials calls, t.experiment.key = k → ∀ x, t.outcome = .ok (.included x) →
      x.origin.kind = .experiment → x.origin.subject? = some h →
      x.index = i ∧ x.origin.isSticky = true := by
    intro t ht hk x ho hx hsub
    subst hk
    exact Trial.index_of_known ((Session.store_of_mem_trials ht).trans hs) (hall t ht).1
      (hi t ht rfl) ho hx hsub
  refine ⟨?_,fun t ht => ⟨(hall t ht).2,hassign t ht⟩,?_⟩
  · rintro cs ⟨ds,rfl⟩
    have hcs : ∀ t ∈ s.trials cs, t ∈ s.trials (cs ++ ds) := fun t ht => by
      rw [s.trials_append]
      exact List.mem_append_left _ ht
    exact ((s.linked_trials cs).invariant (P := fun m => m.get? k h = some (i : Int)) hm
      fun t ht => hstep t (hcs t ht)).1
  · intro d hd hkind hkey hsub
    cases hv : d.inclusion? with
    | none => simp [Decision.experimentKey?,hv] at hkey
    | some p =>
      obtain ⟨k',x⟩ := p
      obtain ⟨t,ht,hk,ho⟩ := Session.trial_of_reply hd hv
      obtain ⟨hdk,hde,hdi,hds,hdy⟩ := Decision.of_inclusion? hv
      have hkk : k' = k := Option.some.inj (hde.symm.trans hkey)
      have hx := hassign t ht (hk.trans hkk) x ho (hdk ▸ hkind) (hds ▸ hsub)
      exact ⟨by rw [hdi,hx.1],hdy.trans hx.2⟩

/-- Memory holds the second variation for a subject. -/
def Session.remembering : Session Rat Memory where
  client := ⟨.empty,⟨some Memory.store,.default⟩,none⟩
  world := ⟨[(("exp", "u1"), 1)],[],[]⟩

/-- Weights that leave the second variation to nobody come into force. -/
def Call.reweighting : List (Call Rat) :=
  let e : Experiment Rat :=
    { Experiment.ofVariations "exp" [.str "a",.str "b"] with weights := some [1,0] }
  [.setCatalog ⟨[⟨"banner",.null,[.when none (.experiment e)]⟩]⟩,
    .ask .decision "banner" (.map [(.str "id", .str "u1")])]

theorem held_index_after_reweighting :
    (Session.remembering.after Call.reweighting).world.store.get? "exp" "u1" = some 1 ∧
      ∃ d, .ok (.decision d) ∈ Session.remembering.replies Call.reweighting ∧
        d.variationIndex? = some 1 ∧ d.isSticky = true := by
  have h := held_index_never_changes Session.remembering rfl Call.reweighting "exp" "u1" 1 rfl
    (by decide +kernel)
  let x : Inclusion Rat := ⟨1,.str "b",.sticky "u1","1",none,false⟩
  let d : Decision Rat := ⟨"banner",.experiment 0 "exp" x⟩
  have hd : .ok (.decision d) ∈ Session.remembering.replies Call.reweighting :=
    List.mem_cons_of_mem _ List.mem_cons_self
  exact ⟨h.1 _ List.prefix_rfl,d,hd,h.2.2 d hd rfl rfl rfl⟩

namespace Trial

/-- Every entry was written down by one of the trials, for an experiment of that key. -/
def Recorded (ts : List (Trial ν Memory)) (m : Memory) : Prop :=
  ∀ k h i, m.get? k h = some i → ∃ t ∈ ts, t.experiment.key = k ∧ ∃ j : Nat, (j : Int) = i ∧
    t.Writes h j

theorem recorded_after {ts : List (Trial ν Memory)} {t : Trial ν Memory} (h : t ∈ ts)
    (ht : t.setting.store = some Memory.store) (hr : Recorded ts t.world.store) :
    Recorded ts t.after.store := by
  rw [store_after ht]
  by_cases hne : t.course.memory t.experiment t.world.store = t.world.store
  · rwa [hne]
  · obtain ⟨subject,j,hw⟩ := (t.experiment.memory_ne_iff_writes _ _ _).mp hne
    have hm : t.course.memory t.experiment t.world.store = _ := Experiment.memory_of_writes hw
    rw [hm]
    intro k h' i hi
    by_cases hk : (k, h') = (t.experiment.key, subject)
    · obtain ⟨rfl,rfl⟩ := Prod.mk.inj hk
      rw [Memory.get?_set_self,Option.some.injEq] at hi
      exact ⟨t,h,rfl,j,hi,hw⟩
    · rw [Memory.get?_set_of_ne _ _ hk] at hi
      exact hr k h' i hi

end Trial

/-- An assignment changes memory exactly when it includes the subject by placing it, unless it
overruns; then it changes memory although it excludes the subject, for which it takes more ranges
than variations. Either way only the subject's own entry changes. After a session that began with
nothing in memory every entry was written down by a trial of its key, and either that trial placed
its subject on a variation of that index, or it overran. -/
theorem memory_changes_iff_placed_iff (e : Experiment ν) (o : Options) (a : Value)
    (w : World Memory) :
    (((e.assign (some Memory.store) o a w).2.store ≠ w.store ↔
        ∃ x, (e.assign (some Memory.store) o a w).1 = .ok (.included x) ∧
          x.origin.isPlaced = true) ↔ ¬ e.Overruns o a w.store) ∧
      (∀ x, (e.assign (some Memory.store) o a w).1 = .ok (.included x) →
        x.origin.isPlaced = true → ∃ h, x.origin.subject? = some h ∧
          (e.assign (some Memory.store) o a w).2.store = w.store.set e.key h x.index) ∧
      (e.Overruns o a w.store → e.count < e.buckets.length ∧ ∃ h i, e.count ≤ i ∧
        (e.assign (some Memory.store) o a w).1 = .ok (.excluded (some h)) ∧
        (e.assign (some Memory.store) o a w).2.store = w.store.set e.key h i) ∧
      ∀ s : Session ν Memory, s.client.setting.store = some Memory.store → s.world.store = [] →
        ∀ calls k h i, (s.after calls).world.store.get? k h = some i →
          ∃ t ∈ s.trials calls, t.experiment.key = k ∧ ∃ j : Nat, (j : Int) = i ∧ t.Writes h j ∧
            ((j < t.experiment.count ∧ ∃ x, t.outcome = .ok (.included x) ∧ x.index = j ∧
                x.origin.isPlaced = true ∧ x.origin.subject? = some h) ∨
              (t.experiment.count ≤ j ∧ t.outcome = .ok (.excluded (some h)))) := by
  rw [e.outcome_assign,e.store_assign]
  refine ⟨?_,?_,?_,?_⟩
  · rw [e.memory_ne_iff_writes]
    constructor
    · rintro hiff ⟨h,i,hw,hi⟩
      obtain ⟨x,hx,_⟩ := hiff.mp ⟨h,i,hw⟩
      rw [Experiment.excluded_of_writes hw hi] at hx
      cases hx
    · intro hno
      constructor
      · rintro ⟨h,i,hw⟩
        have hi : i < e.count := by
          by_contra hi
          exact hno ⟨h,i,hw,by omega⟩
        obtain ⟨x,hx,_,hp,_⟩ := Experiment.placed_of_writes hw hi
        exact ⟨x,hx,hp⟩
      · rintro ⟨x,hx,hp⟩
        obtain ⟨h,_,_,hw⟩ := Experiment.writes_of_placed hx hp
        exact ⟨h,x.index,hw⟩
  · intro x hx hp
    obtain ⟨h,hs,_,hw⟩ := Experiment.writes_of_placed hx hp
    exact ⟨h,hs,Experiment.memory_of_writes hw⟩
  · intro hov
    obtain ⟨h,i,hw,hi⟩ := hov
    exact ⟨Experiment.count_lt_of_overruns ⟨h,i,hw,hi⟩,h,i,hi,Experiment.excluded_of_writes hw hi,
      Experiment.memory_of_writes hw⟩
  · intro s hs hempty calls k h i hi
    have hbegin : Trial.Recorded (s.trials calls) s.world.store := by
      rw [hempty]
      simp [Trial.Recorded]
    have hend := ((s.linked_trials calls).invariant hbegin fun t ht =>
      Trial.recorded_after ht ((Session.store_of_mem_trials ht).trans hs)).1
    obtain ⟨t,ht,hk,j,hj,hw⟩ := hend k h i hi
    refine ⟨t,ht,hk,j,hj,hw,?_⟩
    rw [Trial.outcome_eq ((Session.store_of_mem_trials ht).trans hs)]
    by_cases hlt : j < t.experiment.count
    · exact Or.inl ⟨hlt,Experiment.placed_of_writes hw hlt⟩
    · exact Or.inr ⟨by omega,Experiment.excluded_of_writes hw (by omega)⟩

/-- Two variations and three ranges, of which the last takes everybody. -/
def Experiment.withSpareRange : Experiment Float :=
  { ofVariations "exp" [.str "a",.str "b"] with buckets := [⟨0,0⟩,⟨0,0⟩,⟨0,1⟩] }

theorem memory_changes_without_inclusion :
    let r := Experiment.withSpareRange.assign (some Memory.store) .default
      (.map [(.str "id", .str "u1")]) ⟨[],[],[]⟩
    ¬ (r.2.store ≠ [] ↔ ∃ x, r.1 = .ok (.included x) ∧ x.origin.isPlaced = true) := by
  intro r
  have hx : r.1 = .ok (.excluded (some "u1")) := rfl
  have hm : r.2.store = [(("exp", "u1"), 2)] := by decide +kernel
  rw [hx,hm]
  simp

end FlagEngine
