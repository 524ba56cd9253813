import FlagEngine.Proofs.Session

/-! Which rule decides. A resolution that gives a verdict either passes over every rule and gives
the default, or passes over the rules before some position and gives the verdict of the rule there.
What comes after that rule plays no part. `Rule.Gives` has the three ways in which a rule comes to a
verdict; on none of them does it stumble. -/
namespace FlagEngine

variable {ν σ : Type} [Fraction ν]

theorem Rollout.covered?_eq_some_iff (r : Rollout ν) (a : Value) (subject : String) (n : ν) :
    r.covered? a = some (subject, n) ↔ a.subject? r.hashAttribute = some subject ∧
      Hash.point? r.seed subject r.hashVersion = some n ∧ r.covers n = true := by
  unfold covered?
  rcases a.subject? r.hashAttribute with _ | t
  · simp
  · dsimp only
    rcases hp : (Hash.point? r.seed t r.hashVersion : Option ν) with _ | m
    · simp only [reduceCtorEq,Option.some.injEq,false_iff]
      rintro ⟨rfl,h,-⟩
      simp [hp] at h
    · simp only [Option.ite_none_right_eq_some,Option.some.injEq,Prod.mk.injEq]
      constructor
      · rintro ⟨h,rfl,rfl⟩
        exact ⟨rfl,hp,h⟩
      · rintro ⟨rfl,h,hcovers⟩
        obtain rfl : m = n := Option.some.inj (hp.symm.trans h)
        exact ⟨hcovers,rfl,rfl⟩

theorem Experiment.draw_eq_ok_iff (e : Experiment ν) (subject : String) (i : Nat) (n : ν) :
    e.draw subject = .ok (i, n) ↔ Hash.point? e.seedOrKey subject e.hashVersion = some n ∧
      Bucket.choose n e.ranges = some i := by
  unfold draw
  rcases (Hash.point? e.seedOrKey subject e.hashVersion : Option ν) with _ | m
  · simp
  · dsimp only
    rcases hchoose : Bucket.choose m e.ranges with _ | j
    · simp only [reduceCtorEq,Option.some.injEq,false_iff]
      rintro ⟨rfl,h⟩
      simp [hchoose] at h
    · simp only [Except.ok.injEq,Prod.mk.injEq,Option.some.injEq]
      constructor
      · rintro ⟨rfl,rfl⟩
        exact ⟨rfl,hchoose⟩
      · rintro ⟨rfl,h⟩
        exact ⟨Option.some.inj (hchoose.symm.trans h),rfl⟩

namespace Rule

/-- How a rule at a position comes to a verdict. -/
inductive Gives (s : Setting σ) (i : Nat) (a : Value) (w : World σ) : Rule ν → Verdict ν → Prop
  | force {c : Option Condition} {value : Value} {filters : List (Filter ν)}
    (answers : (Rule.when c (.force value filters)).stumbles a = false)
    (holds : Experiment.holds c a = true) (passes : Filter.keepsOut filters a = false) :
    Gives s i a w (.when c (.force value filters)) (.force i value)
  | rollout {c : Option Condition} {r : Rollout ν} {subject : String} {n : ν}
    (answers : (Rule.when c (.rollout r)).stumbles a = false)
    (holds : Experiment.holds c a = true) (passes : Filter.keepsOut r.filters a = false)
    (covered : r.covered? a = some (subject, n)) :
    Gives s i a w (.when c (.rollout r)) (.rollout i r.value subject n)
  | experiment {c : Option Condition} {e : Experiment ν} {x : Inclusion ν}
    (answers : Experiment.stumbles c a = false) (holds : Experiment.holds c a = true)
    (included : (e.assign s.store s.options a (w.noteAll (Experiment.tooLong c a))).1 =
      .ok (.included x))
    (shown : x.passthrough = false) :
    Gives s i a w (.when c (.experiment e)) (.experiment i e.key x)

theorem gives_of_verdict? {s : Setting σ} {k : String} {i : Nat} {a : Value} {w : World σ}
    {r : Rule ν} {v : Verdict ν} (h : (r.verdict? s k i a w).1 = .ok (some v)) :
    r.Gives s i a w v := by
  have hr : r.stumbles a = false := not_stumbles_of_verdict? h
  rcases r with reason | ⟨c,body⟩
  · cases h
  · by_cases hc : Experiment.holds c a = true
    · simp only [verdict?_of_not_stumbles hr,hc,if_true] at h
      cases body with
      | force value filters =>
        cases hf : Filter.keepsOut filters a <;>
          simp only [RuleBody.verdict?,hf,if_true,Bool.false_eq_true,if_false] at h
        · obtain rfl := Option.some.inj (Except.ok.inj h)
          exact .force hr hc hf
        · cases h
      | rollout b =>
        cases hf : Filter.keepsOut b.filters a <;>
          simp only [RuleBody.verdict?,hf,if_true,Bool.false_eq_true,if_false] at h
        · rcases hn : b.covered? a with _ | ⟨subject,n⟩ <;> rw [hn] at h
          · cases h
          · obtain rfl := Option.some.inj (Except.ok.inj h)
            exact .rollout hr hc hf hn
        · cases h
      | experiment e =>
        rw [RuleBody.verdict?] at h
        rcases hx : e.assign s.store s.options a (w.noteAll (Experiment.tooLong c a)) with
          ⟨fault | _ | x,w'⟩ <;> rw [hx] at h
        · cases h
        · cases h
        · cases hshown : x.passthrough <;>
            simp only [hshown,if_true,Bool.false_eq_true,if_false] at h
          · obtain rfl := Option.some.inj (Except.ok.inj h)
            exact .experiment (by simpa using hr) hc (congrArg Prod.fst hx) hshown
          · cases h
      | unknown => cases h
    · simp only [verdict?_of_not_stumbles hr,hc] at h
      cases h

theorem verdict?_eq_some_iff (s : Setting σ) (k : String) (i : Nat) (a : Value) (w : World σ)
    (r : Rule ν) (v : Verdict ν) :
    (r.verdict? s k i a w).1 = .ok (some v) ↔ r.Gives s i a w v := by
  refine ⟨gives_of_verdict?,?_⟩
  rintro (⟨hr,hc,hf⟩ | ⟨hr,hc,hf,hn⟩ | @⟨c,e,x,hr,hc,hx,hshown⟩)
  · simp [verdict?_of_not_stumbles hr,RuleBody.verdict?,hc,hf]
  · simp [verdict?_of_not_stumbles hr,RuleBody.verdict?,hc,hf,hn]
  · rw [← stumbles_experiment c e] at hr
    simp only [verdict?_of_not_stumbles hr,RuleBody.verdict?,hc,if_true]
    rcases he : e.assign s.store s.options a (w.noteAll (Experiment.tooLong c a)) with ⟨y,w'⟩
    obtain rfl : y = .ok (.included x) := (congrArg Prod.fst he).symm.trans hx
    simp [hshown]

end Rule

namespace Feature

/-- The rules from a position on say nothing, and leave a world behind. -/
def Passes (s : Setting σ) (f : Feature ν) (a : Value) (i : Nat) (rs : List (Rule ν))
    (w u : World σ) : Prop :=
  f.resolveFrom s a i rs w = (.ok (.default f.default),u)

theorem passes_nil_iff (s : Setting σ) (f : Feature ν) (a : Value) (i : Nat) (w u : World σ) :
    f.Passes s a i [] w u ↔ w = u := by
  simp [Passes,resolveFrom]

theorem passes_cons_iff (s : Setting σ) (f : Feature ν) (a : Value) (i : Nat) (r : Rule ν)
    (rs : List (Rule ν)) (w u : World σ) :
    f.Passes s a i (r :: rs) w u ↔
      ∃ v, r.verdict? s f.key i a w = (.ok none,v) ∧ f.Passes s a (i + 1) rs v u := by
  constructor
  · intro h
    unfold Passes resolveFrom at h
    rcases hr : r.verdict? s f.key i a w with ⟨fault | _ | x,v⟩ <;> rw [hr] at h
    · cases h
    · exact ⟨v,rfl,h⟩
    · -- A rule is no default: it bears a position.
      obtain ⟨rfl,rfl⟩ : x = .default f.default ∧ v = u := by simpa using h
      have hindex := Rule.ruleIndex?_of_verdict? (by rw [hr]) f.key
      cases hindex
  · rintro ⟨v,hr,hrs⟩
    unfold Passes resolveFrom
    rw [hr]
    exact hrs

/-- After rules that say nothing, the rules that follow decide. -/
theorem resolveFrom_append {s : Setting σ} {f : Feature ν} {a : Value} {i : Nat}
    {us : List (Rule ν)} {w u : World σ} (h : f.Passes s a i us w u) (rs : List (Rule ν)) :
    f.resolveFrom s a i (us ++ rs) w = f.resolveFrom s a (i + us.length) rs u := by
  induction us generalizing i w with
  | nil =>
    obtain rfl := (passes_nil_iff s f a i w u).mp h
    rfl
  | cons r us ih =>
    obtain ⟨v,hr,hus⟩ := (passes_cons_iff s f a i r us w u).mp h
    have hlen : i + 1 + us.length = i + (r :: us).length := by
      simp only [List.length_cons]
      omega
    rw [← hlen,← ih hus,List.cons_append,resolveFrom,hr]

/-- A verdict is the default, every rule saying nothing, or it is that of some rule. -/
theorem exists_of_resolveFrom {s : Setting σ} {f : Feature ν} {a : Value} {i : Nat}
    {rs : List (Rule ν)} {w : World σ} {v : Verdict ν} (h : (f.resolveFrom s a i rs w).1 = .ok v) :
    (v = .default f.default ∧ ∃ u, f.Passes s a i rs w u) ∨
      ∃ us r vs u, rs = us ++ r :: vs ∧ f.Passes s a i us w u ∧
        (r.verdict? s f.key (i + us.length) a u).1 = .ok (some v) := by
  induction rs generalizing i w with
  | nil => exact .inl ⟨(Except.ok.inj h).symm,w,rfl⟩
  | cons r rs ih =>
    unfold resolveFrom at h
    rcases hr : r.verdict? s f.key i a w with ⟨fault | _ | x,w'⟩ <;> rw [hr] at h
    · cases h
    · have hcons : ∀ us u, f.Passes s a (i + 1) us w' u → f.Passes s a i (r :: us) w u :=
        fun us u hu => (passes_cons_iff s f a i r us w u).mpr ⟨w',hr,hu⟩
      rcases ih h with ⟨hv,u,hu⟩ | ⟨us,x,vs,u,rfl,hu,hx⟩
      · exact .inl ⟨hv,u,hcons rs u hu⟩
      · have hlen : i + 1 + us.length = i + (r :: us).length := by
          simp only [List.length_cons]
          omega
        exact .inr ⟨r :: us,x,vs,u,rfl,hcons us u hu,hlen ▸ hx⟩
    · obtain rfl : x = v := Except.ok.inj h
      exact .inr ⟨[],r,rs,w,rfl,rfl,by rw [List.length_nil,Nat.add_zero,hr]⟩

/-- The rule at a position decides: those before it say nothing, and it gives the verdict in the
world that they leave. -/
structure DecidedAt (s : Setting σ) (f : Feature ν) (a : Value) (w : World σ) (i : Nat)
    (r : Rule ν) (u : World σ) (v : Verdict ν) : Prop where
  rule : f.rules[i]? = some r
  passes : f.Passes s a 0 (f.rules.take i) w u
  gives : r.Gives s i a u v

theorem DecidedAt.ruleIndex? {s : Setting σ} {f : Feature ν} {a : Value} {w u : World σ} {i : Nat}
    {r : Rule ν} {v : Verdict ν} (h : f.DecidedAt s a w i r u v) (k : String) :
    (⟨k,v⟩ : Decision ν).ruleIndex? = some i := by
  cases h.gives <;> rfl

theorem resolve_eq_ok_iff (s : Setting σ) (f : Feature ν) (a : Value) (w : World σ)
    (d : Decision ν) :
    (f.resolve s a w).1 = .ok d ↔ d.feature = f.key ∧
      ((d.verdict = .default f.default ∧ ∃ u, f.Passes s a 0 f.rules w u) ∨
        ∃ i r u, f.DecidedAt s a w i r u d.verdict) := by
  have hmap : (f.resolve s a w).1 = .ok d ↔
      d.feature = f.key ∧ (f.resolveFrom s a 0 f.rules w).1 = .ok d.verdict := by
    obtain ⟨k,v⟩ := d
    cases hv : (f.resolveFrom s a 0 f.rules w).1 <;>
      simp [resolve,hv,Except.map,eq_comm]
  rw [hmap]
  refine and_congr_right fun _ => ?_
  constructor
  · intro h
    rcases exists_of_resolveFrom h with hdefault | ⟨us,r,vs,u,heq,hu,hr⟩
    · exact .inl hdefault
    · rw [Nat.zero_add] at hr
      exact .inr ⟨us.length,r,u,by simp [heq],by simpa [heq] using hu,Rule.gives_of_verdict? hr⟩
  · rintro (⟨hv,u,hu⟩ | ⟨i,r,u,⟨hr,hu,hv⟩⟩)
    · rw [show f.resolveFrom s a 0 f.rules w = _ from hu,hv]
    · obtain ⟨hi,hri⟩ := List.getElem?_eq_some_iff.mp hr
      have hlen : (f.rules.take i).length = i := by simp; omega
      have hsplit : f.rules = f.rules.take i ++ r :: f.rules.drop (i + 1) := by
        rw [← hri,List.getElem_cons_drop,List.take_append_drop]
      rw [hsplit,resolveFrom_append hu,hlen,Nat.zero_add,resolveFrom]
      rcases hx : r.verdict? s f.key i a u with ⟨x,u'⟩
      have hv := (Rule.verdict?_eq_some_iff s f.key i a u r d.verdict).mpr hv
      rw [hx] at hv
      obtain rfl : x = .ok (some d.verdict) := hv
      rfl

end Feature
end FlagEngine
