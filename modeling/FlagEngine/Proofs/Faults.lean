import FlagEngine.Proofs.Session
import FlagEngine.Proofs.Stumbling

/-! Where an evaluation ends in a fault. Stores and trackers may be whatever they are. The URL of
the options can be at fault, which is only read once an experiment with enough variations is tried,
by the name of its key; and attributes can, where a hash attribute, a filter or a condition asks for
the text of an integer that is too long to be written. -/
namespace FlagEngine

theorem Text.foldl_none (cs : List Char) :
    cs.foldl (fun n? c => n?.bind fun n => (decimalValue? c).map (10 * n + ·)) none = none := by
  induction cs with
  | nil => rfl
  | cons c cs ih => simpa using ih

theorem Text.isSome_foldl_iff (cs : List Char) (n : Nat) :
    (cs.foldl (fun n? c => n?.bind fun n => (decimalValue? c).map (10 * n + ·)) (some n)).isSome ↔
      ∀ c ∈ cs, isDecimal c := by
  induction cs generalizing n with
  | nil => simp
  | cons c cs ih =>
    cases hc : decimalValue? c with
    | none => simp [hc,foldl_none,isDecimal]
    | some d => simpa [hc,isDecimal] using ih (10 * n + d)

theorem Text.isSome_decimal?_iff (s : String) :
    (decimal? s).isSome ↔ s.toList ≠ [] ∧ ∀ c ∈ s.toList, isDecimal c := by
  unfold decimal?
  by_cases h : s.isEmpty
  · simp_all
  · rw [if_neg h,isSome_foldl_iff]
    simp_all

/-- The authority that is read in a URL. -/
def Url.authorityOf (url : String) : List Char :=
  (authority (afterScheme (clean url.toList))).1

theorem Url.query_of_malformed {url : String} (h : isAuthority (authorityOf url) = false) :
    query url.toList = .error .malformedUrl := by
  have hno : ¬ isAuthority (authorityOf url) = true := by rw [h]; simp
  unfold query
  exact if_neg hno

theorem Url.exists_query_of_authority {url : String} (h : isAuthority (authorityOf url) = true) :
    ∃ cs, query url.toList = .ok cs := by
  unfold query
  exact ⟨_,if_pos h⟩

namespace Query

/-- What is wrong with a URL in which the variation of an experiment is looked up: its authority,
or the value of the first field of that name, which has more digits than are read. -/
inductive Faulty (key url : String) : Fault → Prop
  | malformed (h : Url.isAuthority (Url.authorityOf url) = false) : Faulty key url .malformedUrl
  | overlong {query value : List Char} (hquery : Url.query url.toList = .ok query)
      (hfield : ((fields query).find? (·.1 == key.toList)).map (·.2) = some value)
      (hdigits : ∀ c ∈ value, Text.isDecimal c) (hlong : Number.maxDigits < value.length) :
      Faulty key url .overlongInteger

theorem index?_eq_error_iff (value : List Char) (count : Nat) (x : Fault) :
    index? value count = .error x ↔
      x = .overlongInteger ∧ (∀ c ∈ value, Text.isDecimal c) ∧ Number.maxDigits < value.length := by
  have hdecimal := Text.isSome_decimal?_iff (String.ofList value)
  rw [String.toList_ofList] at hdecimal
  unfold index?
  cases hn : Text.decimal? (String.ofList value) with
  | none =>
    simp only [hn,Option.isSome_none,Bool.false_eq_true,false_iff,not_and] at hdecimal
    simp only [reduceCtorEq,false_iff]
    rintro ⟨_,hall,hlong⟩
    exact hdecimal (List.ne_nil_of_length_pos (by omega)) hall
  | some n =>
    have hall := (hdecimal.mp (by rw [hn]; rfl)).2
    dsimp only
    by_cases hlong : Number.maxDigits < value.length
    · rw [if_pos hlong,Except.error.injEq]
      exact ⟨fun hx => ⟨hx.symm,hall,hlong⟩,fun hx => hx.1.symm⟩
    · rw [if_neg hlong]
      exact ⟨fun hx => (by cases hx),fun hx => absurd hx.2.2 hlong⟩

theorem override_of_query {url : String} {query : List Char}
    (h : Url.query url.toList = .ok query) (key : String) (count : Nat) :
    override key url count =
      match (fields query).find? (·.1 == key.toList) with
      | some (_, value) => index? value count
      | none => .ok none := by
  unfold override
  rw [h]
  rfl

theorem override_of_malformed {url : String} {x : Fault} (h : Url.query url.toList = .error x)
    (key : String) (count : Nat) : override key url count = .error x := by
  unfold override
  rw [h]
  rfl

theorem override_eq_error_iff (key url : String) (count : Nat) (x : Fault) :
    override key url count = .error x ↔ Faulty key url x := by
  cases hwell : Url.isAuthority (Url.authorityOf url) with
  | false =>
    have hquery := Url.query_of_malformed hwell
    rw [override_of_malformed hquery,Except.error.injEq]
    constructor
    · rintro rfl
      exact .malformed hwell
    · intro hx
      cases hx with
      | malformed _ => rfl
      | overlong hq => simp [hquery] at hq
  | true =>
    obtain ⟨query,hquery⟩ := Url.exists_query_of_authority hwell
    rw [override_of_query hquery]
    constructor
    · intro hx
      split at hx
      · rename_i name value hfield
        obtain ⟨rfl,hdigits,hlong⟩ := (index?_eq_error_iff value count x).mp hx
        exact .overlong hquery (by rw [hfield]; rfl) hdigits hlong
      · cases hx
    · intro hx
      cases hx with
      | malformed h => simp [hwell] at h
      | overlong hq hfield hdigits hlong =>
        obtain rfl := Except.ok.inj (hquery.symm.trans hq)
        obtain ⟨⟨name,value⟩,hf,rfl⟩ := Option.map_eq_some_iff.mp hfield
        rw [hf]
        exact (index?_eq_error_iff value count _).mpr ⟨rfl,hdigits,hlong⟩

end Query

variable {ν σ : Type}

/-- Nothing settles the entry of a subject before it is asked what may keep it out. -/
structure Experiment.Admits (e : Experiment ν) (o : Options) (a : Value) (subject : String) :
    Prop where
  many : 2 ≤ e.count
  enabled : o.enabled = true
  unforced : e.forcedBy o = .ok none
  active : e.active = true
  subject_eq : e.subject? a = some subject
  free : e.force = none

variable [Fraction ν]

/-- What is wrong where an entry stops: the hash attribute cannot be written, the variation is looked
up in a URL at fault, or a filter or the condition asks for what cannot be written. -/
inductive Experiment.StopsAt (e : Experiment ν) (o : Options) (a : Value) : Stop → Prop
  | subject (overlong : a.overlongAt e.hashAttribute = true) : StopsAt e o a .subject
  | url {x : Fault} (written : a.overlongAt e.hashAttribute = false) (many : 2 ≤ e.count)
    (enabled : o.enabled = true) (fault : Query.Faulty e.key o.url x) : StopsAt e o a (.url x)
  | filters {subject : String} (admits : e.Admits o a subject)
    (stumbles : Filter.stumble e.filters a = true) : StopsAt e o a .filters
  | condition {subject : String} (admits : e.Admits o a subject)
    (passes : Filter.stumble e.filters a = false) (inside : e.keptOut? a subject = none)
    (stumbles : Experiment.stumbles e.condition a = true) : StopsAt e o a .condition

/-- The fault of an experiment. -/
def Experiment.Faulty (e : Experiment ν) (o : Options) (a : Value) (x : Fault) : Prop :=
  ∃ stop, e.StopsAt o a stop ∧ stop.fault = x

/-- The fault of a rule, should it be come to. -/
def Rule.Faulty (r : Rule ν) (o : Options) (a : Value) (x : Fault) : Prop :=
  (r.stumbles a = true ∧ x = .overlongInteger) ∨
    ∃ c e, r = .when c (.experiment e) ∧ Experiment.applies c a = true ∧ e.Faulty o a x

namespace Value

theorem hashText?_of_overlong {v : Value} (h : v.isOverlong = true) : v.hashText? = none := by
  cases v with
  | scalar s =>
    cases s with
    | int n => exact if_pos h
    | _ => cases h
  | _ => cases h

theorem not_overlongAt_of_subject? {a : Value} {name subject : String}
    (h : a.subject? name = some subject) : a.overlongAt name = false := by
  unfold subject? at h
  unfold overlongAt
  cases hv : a.field? name with
  | none => rfl
  | some v =>
    rw [Option.any_some]
    by_contra hlong
    rw [hv,Option.bind_some,hashText?_of_overlong (by simpa using hlong)] at h
    cases h

end Value

namespace Experiment

omit [Fraction ν] in
theorem forcedBy_eq_error_iff (e : Experiment ν) (o : Options) (x : Fault) :
    e.forcedBy o = .error x ↔ Query.Faulty e.key o.url x := by
  rw [← Query.override_eq_error_iff e.key o.url e.count x]
  unfold forcedBy
  rcases Query.override e.key o.url e.count with f | _ | i <;> simp

variable {e : Experiment ν} {o : Options} {a : Value} {subject : String} {stop : Stop}

theorem admission_eq_error_iff :
    e.admission o a subject = .error stop ↔
      (stop = .filters ∧ Filter.stumble e.filters a = true) ∨
      stop = .condition ∧ Filter.stumble e.filters a = false ∧ e.keptOut? a subject = none ∧
        stumbles e.condition a = true := by
  unfold admission stumble?
  cases hfilters : Filter.stumble e.filters a with
  | true => simp [@eq_comm _ stop]
  | false =>
    cases hkept : e.keptOut? a subject with
    | some r =>
      cases e.exclusion? o a subject <;> simp
    | none =>
      cases hcondition : stumbles e.condition a with
      | true => simp [@eq_comm _ stop]
      | false => cases e.exclusion? o a subject <;> simp

/-- A subject that nothing settles before is admitted or kept out, or the entry stops. -/
theorem entry_of_admits (h : e.Admits o a subject) : e.entry o a = e.admission o a subject := by
  have hmany : ¬ e.count < 2 := by have := h.many; omega
  simp only [entry,Value.not_overlongAt_of_subject? h.subject_eq,hmany,h.enabled,h.unforced,h.active,
    h.subject_eq,h.free,Bool.false_eq_true,Bool.not_true,if_false]

theorem stopsAt_of_entry (h : e.entry o a = .error stop) : e.StopsAt o a stop := by
  unfold entry at h
  split at h
  · next hlong =>
    obtain rfl := Except.error.inj h
    exact .subject hlong
  next hwritten =>
  split at h
  · cases h
  next hmany =>
  split at h
  · cases h
  next hon =>
  have hmany : 2 ≤ e.count := by omega
  have hon : o.enabled = true := by simpa using hon
  split at h
  · next hforced =>
    obtain rfl := Except.error.inj h
    exact .url (by simpa using hwritten) hmany hon ((e.forcedBy_eq_error_iff o _).mp hforced)
  · cases h
  next hforced =>
  split at h
  · cases h
  next hactive =>
  split at h
  · cases h
  next subject hsubject =>
  split at h
  · cases h
  next hforce =>
  have hadmits : e.Admits o a subject := ⟨hmany,hon,hforced,by simpa using hactive,hsubject,hforce⟩
  obtain ⟨rfl,hstumbles⟩ | ⟨rfl,hpasses,hinside,hstumbles⟩ := admission_eq_error_iff.mp h
  · exact .filters hadmits hstumbles
  · exact .condition hadmits hpasses hinside hstumbles

theorem entry_eq_error_iff : e.entry o a = .error stop ↔ e.StopsAt o a stop := by
  refine ⟨stopsAt_of_entry,fun h => ?_⟩
  cases h with
  | subject hlong => exact if_pos hlong
  | url hwritten hmany hon hfault =>
    have hcount : ¬ e.count < 2 := by omega
    simp only [entry,hwritten,hcount,hon,(e.forcedBy_eq_error_iff o _).mpr hfault,
      Bool.false_eq_true,Bool.not_true,if_false]
  | filters hadmits hstumbles =>
    rw [entry_of_admits hadmits]
    exact admission_eq_error_iff.mpr (.inl ⟨rfl,hstumbles⟩)
  | condition hadmits hpasses hinside hstumbles =>
    rw [entry_of_admits hadmits]
    exact admission_eq_error_iff.mpr (.inr ⟨rfl,hpasses,hinside,hstumbles⟩)

theorem assign_eq_error_iff (e : Experiment ν) (store? : Option (Store σ)) (o : Options) (a : Value)
    (w : World σ) (x : Fault) : (e.assign store? o a w).1 = .error x ↔ e.Faulty o a x := by
  unfold Faulty assign
  simp only [← entry_eq_error_iff]
  cases e.entry o a with
  | error stop => simp
  | ok y => simp

/-- Where the attributes can be written, the URL is all that can be at fault. -/
theorem faulty_iff_of_writable (e : Experiment ν) (o : Options) (h : a.Writable) (x : Fault) :
    e.Faulty o a x ↔ 2 ≤ e.count ∧ o.enabled = true ∧ Query.Faulty e.key o.url x := by
  constructor
  · rintro ⟨stop,hstop,rfl⟩
    cases hstop with
    | subject hlong => simp [h.not_overlongAt] at hlong
    | url _ hmany hon hfault => exact ⟨hmany,hon,hfault⟩
    | filters _ hstumbles => simp [Filter.stumble_of_writable _ h] at hstumbles
    | condition _ _ _ hstumbles => simp [stumbles_of_writable _ h] at hstumbles
  · rintro ⟨hmany,hon,hfault⟩
    exact ⟨.url x,.url (h.not_overlongAt _) hmany hon hfault,rfl⟩

end Experiment

theorem map_eq_error_iff {α β : Type} (f : α → β) (r : Except Fault α) (x : Fault) :
    r.map f = .error x ↔ r = .error x := by
  cases r <;> simp [Except.map]

theorem Rule.verdict?_eq_error_iff (s : Setting σ) (feature : String) (index : Nat) (a : Value)
    (w : World σ) (r : Rule ν) (x : Fault) :
    (r.verdict? s feature index a w).1 = .error x ↔ r.Faulty s.options a x := by
  cases hr : r.stumbles a with
  | true =>
    obtain ⟨es,hes⟩ := verdict?_of_stumbles hr s feature index
    have hno : ∀ c e, r = .when c (.experiment e) → Experiment.applies c a = false := by
      rintro c e rfl
      rw [stumbles_experiment] at hr
      simp [Experiment.applies,hr]
    rw [hes]
    constructor
    · intro h
      exact .inl ⟨hr,(Except.error.inj h).symm⟩
    · rintro (⟨-,rfl⟩ | ⟨c,e,heq,happlies,-⟩)
      · rfl
      · simp [hno c e heq] at happlies
  | false =>
    have hfaulty : r.Faulty s.options a x ↔
        ∃ c e, r = .when c (.experiment e) ∧ Experiment.applies c a = true ∧
          e.Faulty s.options a x := by simp [Faulty,hr]
    rw [hfaulty]
    cases ht : r.trial? s a w with
    | none =>
      obtain ⟨v?,-,hv⟩ := exists_verdict?_of_no_trial ht hr feature index
      rw [(hv w).1]
      refine iff_of_false (fun h => ?_) ?_
      · cases h
      · rintro ⟨c,e,rfl,happlies,-⟩
        simp [trial?,happlies] at ht
    | some t =>
      rw [verdict?_of_trial ht]
      dsimp only [Trial.shown?,Trial.outcome]
      rw [map_eq_error_iff,map_eq_error_iff,Experiment.assign_eq_error_iff]
      obtain ⟨c,e,rfl,hc,rfl⟩ := (r.trial?_eq_some_iff s a w t).mp ht
      constructor
      · exact fun h => ⟨c,e,rfl,hc,h⟩
      · rintro ⟨c',e',heq,_,h⟩
        cases heq
        exact h

namespace Feature

/-- The fault of a feature: some rule has it, and the rules before decide nothing. -/
def Faulty (s : Setting σ) (f : Feature ν) (a : Value) (w : World σ) (x : Fault) : Prop :=
  ∃ us r vs, f.rules = us ++ r :: vs ∧ r.Faulty s.options a x ∧
    (f.resolveFrom s a 0 us w).1 = .ok (.default f.default)

theorem resolveFrom_eq_error_iff (s : Setting σ) (f : Feature ν) (a : Value) (i : Nat)
    (rs : List (Rule ν)) (w : World σ) (x : Fault) :
    (f.resolveFrom s a i rs w).1 = .error x ↔ ∃ us r vs, rs = us ++ r :: vs ∧
      r.Faulty s.options a x ∧ (f.resolveFrom s a i us w).1 = .ok (.default f.default) := by
  induction rs generalizing i w with
  | nil => simp [resolveFrom]
  | cons r rs ih =>
    have hr := Rule.verdict?_eq_error_iff s f.key i a w r x
    constructor
    · intro hx
      unfold resolveFrom at hx
      rcases hv : r.verdict? s f.key i a w with ⟨fault | _ | v,w'⟩
      · obtain rfl : fault = x := by simpa [hv] using hx
        exact ⟨[],r,rs,rfl,hr.mp (by rw [hv]),rfl⟩
      · obtain ⟨us,r',vs,rfl,hfaulty,hdefault⟩ :=
          (ih (i + 1) w').mp (by simpa only [hv] using hx)
        exact ⟨r :: us,r',vs,rfl,hfaulty,by simpa only [resolveFrom,hv] using hdefault⟩
      · simp [hv] at hx
    · rintro ⟨us,r',vs,heq,hfaulty,hdefault⟩
      unfold resolveFrom
      cases us with
      | nil =>
        obtain ⟨rfl,rfl⟩ := List.cons.inj heq
        have hx := hr.mpr hfaulty
        rcases hv : r.verdict? s f.key i a w with ⟨y,w'⟩
        rw [hv] at hx
        obtain rfl : y = .error x := hx
        rfl
      | cons u us =>
        obtain ⟨rfl,rfl⟩ := List.cons.inj heq
        unfold resolveFrom at hdefault
        rcases hv : r.verdict? s f.key i a w with ⟨fault | _ | v,w'⟩
        · simp [hv] at hdefault
        · exact (ih (i + 1) w').mpr
            ⟨us,r',vs,rfl,hfaulty,by simpa only [hv] using hdefault⟩
        · obtain rfl : v = .default f.default := by simpa [hv] using hdefault
          have hindex := Rule.ruleIndex?_of_verdict? (by rw [hv]) f.key
          simp [Decision.ruleIndex?] at hindex

theorem resolve_eq_error_iff (s : Setting σ) (f : Feature ν) (a : Value) (w : World σ) (x : Fault) :
    (f.resolve s a w).1 = .error x ↔ f.Faulty s a w x := by
  unfold resolve
  dsimp only
  rw [map_eq_error_iff]
  exact f.resolveFrom_eq_error_iff s a 0 f.rules w x

theorem not_faulty_of_writable {s : Setting σ} {a : Value} (f : Feature ν) (ha : a.Writable)
    (hurl : s.options.enabled = true → ∀ k x, ¬ Query.Faulty k s.options.url x) (w : World σ)
    (x : Fault) : ¬ f.Faulty s a w x := by
  rintro ⟨us,r,vs,_,⟨hstumbles,-⟩ | ⟨_,e,_,_,hfaulty⟩,_⟩
  · simp [r.stumbles_of_writable ha] at hstumbles
  · obtain ⟨-,hon,hfault⟩ := (e.faulty_iff_of_writable _ ha x).mp hfaulty
    exact hurl hon e.key x hfault

end Feature

namespace Catalog

theorem evaluate_eq_error_iff (c : Catalog ν) (s : Setting σ) (tracker? : Option Tracker)
    (key : String) (a : Value) (w : World σ) (x : Fault) :
    (c.evaluate s tracker? key a w).1 = .error x ↔
      ∃ f, c.get? key = some f ∧ f.Faulty s a w x := by
  cases hf : c.get? key with
  | none => simp [evaluate_of_unknown hf]
  | some f =>
    rw [(evaluate_of_get? hf s tracker? a w).1,f.resolve_eq_error_iff s a w x]
    simp

end Catalog

/-- Without a URL none is at fault. -/
theorem Query.not_faulty_empty (key : String) (x : Fault) : ¬ Faulty key "" x := by
  intro h
  cases h with
  | malformed h => exact absurd h (by decide)
  | overlong hquery hfield =>
    have hempty : Url.query "".toList = .ok [] := rfl
    rw [hempty] at hquery
    obtain rfl := Except.ok.inj hquery
    cases hfield

end FlagEngine
