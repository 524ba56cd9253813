import FlagEngine.Proofs.Tracking

/-! Stores that are of no use. An experiment asks its store once, when a subject may enter, and an
answer that is no index of the experiment counts for nothing; whether a write is taken is only
noted. So as long as a store gives such answers alone, whatever else it does and however it changes
from one call to the next, replies and exposures are those of an engine that has no store. -/
namespace FlagEngine

variable {ν σ : Type}

/-- What a store may answer an experiment of so many variations to no avail. -/
inductive Reading.Useless (count : Nat) : Reading → Prop
  | failed : Useless count .failed
  | noInteger {v : Value} (h : ∀ i, v ≠ .int i) : Useless count (.found v)
  | outOfRange {i : Int} (h : i < 0 ∨ count ≤ i) : Useless count (.found (.int i))

/-- The setting without its store. -/
def Setting.withoutStore (s : Setting σ) : Setting σ := { s with store := none }

@[simp] theorem Setting.store_withoutStore (s : Setting σ) : s.withoutStore.store = none := rfl
@[simp] theorem Setting.options_withoutStore (s : Setting σ) :
    s.withoutStore.options = s.options := rfl

namespace Experiment

theorem stored_of_useless {e : Experiment ν} {store : Store σ} {subject : String} {w : World σ}
    (h : (store.read w.store e.key subject).1.Useless e.count) :
    (e.stored store subject w).1 = none := by
  unfold stored
  rcases hr : store.read w.store e.key subject with ⟨reading,s⟩
  rw [hr] at h
  cases h with
  | failed => rfl
  | @noInteger v hv =>
    -- Only an integer is looked at further.
    rcases v with (_ | _ | i | _ | _ | _ | _ | _) | _ | _ | _ | _
    case scalar.int => exact absurd rfl (hv i)
    all_goals rfl
  | @outOfRange i hi =>
    have hout : ¬ (0 ≤ i ∧ i < e.count) := by omega
    simp [hout]

variable [Fraction ν]

/-- The store has no say in where a subject is placed. -/
theorem place_eq (e : Experiment ν) (store? : Option (Store σ)) (subject : String)
    (w w' : World σ) : (e.place store? subject w).1 = (e.place none subject w').1 := by
  unfold place
  cases e.draw subject with
  | error r => rfl
  | ok r => rfl

/-- Of no store, or of a store whose answer is of no use, an enrollment is the same. -/
theorem enroll_of_useless {e : Experiment ν} {store? : Option (Store σ)} {subject : String}
    {w : World σ}
    (h : ∀ store ∈ store?, (store.read w.store e.key subject).1.Useless e.count) (w' : World σ) :
    (e.enroll store? subject w).1 = (e.enroll none subject w').1 := by
  cases store? with
  | none => exact e.place_eq none subject w w'
  | some store =>
    have hs := stored_of_useless (h store rfl)
    simp only [enroll]
    rcases hr : e.stored store subject w with ⟨i?,v⟩
    rw [hr] at hs
    obtain rfl : i? = none := hs
    exact e.place_eq (some store) subject v w'

end Experiment

variable [Fraction ν]

namespace Trial

/-- If the trial comes to ask a store, the answer is of no use to its experiment. -/
def Unaided (t : Trial ν σ) : Prop :=
  ∀ subject, t.experiment.entry t.setting.options t.attributes = .ok (.eligible subject) →
    ∀ store ∈ t.setting.store,
      (store.read t.world.store t.experiment.key subject).1.Useless t.experiment.count

/-- An unaided trial comes to what it would come to without a store, whatever was noted before. -/
theorem Unaided.outcome_eq {t : Trial ν σ} (h : t.Unaided) (w : World σ) :
    t.outcome = (t.experiment.assign none t.setting.options t.attributes w).1 := by
  unfold outcome Experiment.assign
  cases hentry : t.experiment.entry t.setting.options t.attributes with
  | error f => rfl
  | ok x =>
    cases x with
    | eligible subject =>
      -- What is noted at the entry does not change what the store is asked.
      have hstart : ∀ v : World σ, v.store = t.world.store → ∀ v' : World σ,
          (t.experiment.enroll t.setting.store subject v).1 =
            (t.experiment.enroll none subject v').1 := fun v hv v' =>
        Experiment.enroll_of_useless (fun store hs => hv ▸ h subject hentry store hs) v'
      exact congrArg Except.ok (hstart (t.world.noteAll _) rfl (w.noteAll _))
    | _ => rfl

end Trial

/-- A rule whose trial is unaided says what it says without a store. -/
theorem Rule.verdict?_of_unaided {s : Setting σ} {a : Value} {w : World σ} {r : Rule ν}
    (h : ∀ t ∈ r.trial? s a w, t.Unaided) (feature : String) (index : Nat) (w' : World σ) :
    (r.verdict? s feature index a w).1 = (r.verdict? s.withoutStore feature index a w').1 := by
  cases hr : r.stumbles a with
  | true =>
    obtain ⟨es,hes⟩ := verdict?_of_stumbles hr s feature index
    obtain ⟨es',hes'⟩ := verdict?_of_stumbles hr s.withoutStore feature index
    rw [hes,hes']
  | false =>
    cases r with
    | invalid reason => rfl
    | when c body =>
      by_cases hc : Experiment.holds c a
      · cases body with
        | experiment e =>
          rw [stumbles_experiment] at hr
          have happlies : Experiment.applies c a = true := (Experiment.applies_iff c a).mpr ⟨hr,hc⟩
          have ht : (Rule.when c (.experiment e)).trial? s a w = some _ := if_pos happlies
          have ht' : (Rule.when c (.experiment e)).trial? s.withoutStore a w' = some _ :=
            if_pos happlies
          have hsame := (h _ ht).outcome_eq (w'.noteAll (Experiment.tooLong c a))
          rw [verdict?_of_trial ht,verdict?_of_trial ht']
          simp only [Trial.shown?,hsame]
          rfl
        | rollout r =>
          simp only [verdict?_of_not_stumbles hr,RuleBody.verdict?,hc,if_true]
          split
          · rfl
          · split <;> rfl
        | _ => simp [verdict?_of_not_stumbles hr,RuleBody.verdict?,hc]
      · simp [verdict?_of_not_stumbles hr,hc]

namespace Feature

theorem resolveFrom_of_unaided {s : Setting σ} {f : Feature ν} {a : Value} {i : Nat}
    {rs : List (Rule ν)} {w : World σ} (h : ∀ t ∈ f.trialsFrom s a i rs w, t.Unaided)
    (w' : World σ) :
    (f.resolveFrom s a i rs w).1 = (f.resolveFrom s.withoutStore a i rs w').1 := by
  induction rs generalizing i w w' with
  | nil => rfl
  | cons r rs ih =>
    unfold trialsFrom at h
    have hr := Rule.verdict?_of_unaided
      (fun t ht => h t (List.mem_append_left _ (Option.mem_toList.mpr ht))) f.key i w'
    have hrest := fun t ht => h t (List.mem_append_right _ ht)
    unfold resolveFrom
    rcases hv : r.verdict? s f.key i a w with ⟨x,v⟩
    rcases hv' : r.verdict? s.withoutStore f.key i a w' with ⟨x',v'⟩
    rw [hv,hv'] at hr
    obtain rfl : x = x' := hr
    rcases x with fault | _ | y
    · rfl
    · exact ih (by simpa only [hv] using hrest) v'
    · rfl

theorem resolve_of_unaided {s : Setting σ} {f : Feature ν} {a : Value} {w : World σ}
    (h : ∀ t ∈ f.trials s a w, t.Unaided) (w' : World σ) :
    (f.resolve s a w).1 = (f.resolve s.withoutStore a w').1 :=
  congrArg (Except.map _) (resolveFrom_of_unaided h w')

end Feature

namespace Catalog

/-- Evaluations that come to the same report the same. -/
theorem exposures_evaluate_congr {c : Catalog ν} {s s' : Setting σ} {tracker? : Option Tracker}
    {key : String} {a : Value} {w w' : World σ}
    (h : (c.evaluate s tracker? key a w).1 = (c.evaluate s' tracker? key a w').1)
    (hw : w.exposures = w'.exposures) :
    (c.evaluate s tracker? key a w).2.exposures =
      (c.evaluate s' tracker? key a w').2.exposures := by
  cases tracker? with
  | none => rw [exposures_evaluate_untracked,exposures_evaluate_untracked,hw]
  | some t => rw [exposures_evaluate,exposures_evaluate,h,hw]

theorem evaluate_of_unaided {c : Catalog ν} {s : Setting σ} {key : String} {a : Value}
    {w w' : World σ} (h : ∀ t ∈ c.trials s key a w, t.Unaided) (hw : w.exposures = w'.exposures)
    (tracker? : Option Tracker) :
    (c.evaluate s tracker? key a w).1 = (c.evaluate s.withoutStore tracker? key a w').1 ∧
      (c.evaluate s tracker? key a w).2.exposures =
        (c.evaluate s.withoutStore tracker? key a w').2.exposures := by
  have hsame : (c.evaluate s tracker? key a w).1 =
      (c.evaluate s.withoutStore tracker? key a w').1 := by
    cases hf : c.get? key with
    | none => rw [evaluate_of_unknown hf,evaluate_of_unknown hf]
    | some f =>
      rw [trials_of_get? hf] at h
      rw [(evaluate_of_get? hf s tracker? a w).1,
        (evaluate_of_get? hf s.withoutStore tracker? a w').1]
      exact Feature.resolve_of_unaided h w'
  exact ⟨hsame,exposures_evaluate_congr hsame hw⟩

end Catalog

namespace Client

def withoutStore (c : Client ν σ) : Client ν σ := { c with setting := c.setting.withoutStore }

theorem run_of_unaided {c : Client ν σ} {e : Experiment ν} {a : Value} {w w' : World σ}
    (h : Trial.Unaided ⟨e,c.setting,a.orEmpty,w⟩) (hw : w.exposures = w'.exposures) :
    (c.run e a w).1 = (c.withoutStore.run e a w').1 ∧
      (c.run e a w).2.exposures = (c.withoutStore.run e a w').2.exposures := by
  have hsame := h.outcome_eq w'
  have hx := e.exposures_assign c.setting.store c.setting.options a.orEmpty w
  have hx' := e.exposures_assign none c.setting.options a.orEmpty w'
  simp only [Trial.outcome] at hsame
  simp only [run,withoutStore,Setting.store_withoutStore,Setting.options_withoutStore]
  rcases hr : e.assign c.setting.store c.setting.options a.orEmpty w with ⟨x,v⟩
  rcases hr' : e.assign none c.setting.options a.orEmpty w' with ⟨x',v'⟩
  rw [hr] at hsame hx
  rw [hr'] at hsame hx'
  obtain rfl : x = x' := hsame
  have hv : v.exposures = v'.exposures := hx.trans (hw.trans hx'.symm)
  cases x with
  | error fault => exact ⟨rfl,hv⟩
  | ok x =>
    refine ⟨rfl,?_⟩
    cases ht : c.tracker with
    | none => exact hv
    | some t =>
      rw [Catalog.exposures_report,Catalog.exposures_report,hv]

end Client

namespace Session

def withoutStore (s : Session ν σ) : Session ν σ := { s with client := s.client.withoutStore }

/-- The second session is the first without its store; they reported the same so far. -/
structure Bares (s s' : Session ν σ) : Prop where
  client : s'.client = s.client.withoutStore
  exposures : s.world.exposures = s'.world.exposures

omit [Fraction ν] in
theorem Bares.answer {α : Type} {s s' : Session ν σ} (h : s.Bares s') (reply : α → Reply ν)
    {r r' : Except Fault α × World σ} (hr : r.1 = r'.1) (hx : r.2.exposures = r'.2.exposures) :
    (s.answer reply r).1 = (s'.answer reply r').1 ∧
      (s.answer reply r).2.Bares (s'.answer reply r').2 :=
  ⟨congrArg (Except.map reply) hr,h.client,hx⟩

/-- A call whose trials are unaided has the same reply without a store. -/
theorem Bares.perform {s s' : Session ν σ} (h : s.Bares s') {c : Call ν}
    (hc : ∀ t ∈ s.trialsOf c, t.Unaided) :
    (s.perform c).1 = (s'.perform c).1 ∧ (s.perform c).2.Bares (s'.perform c).2 := by
  have hset : ∀ o, s'.setting o = (s.setting o).withoutStore := fun o => by
    simp only [setting,h.client,Client.withoutStore,Setting.withoutStore]
  cases c with
  | ask q key a =>
    obtain ⟨hsame,hx⟩ := Catalog.evaluate_of_unaided hc h.exposures s.client.tracker
    have hclient : s'.client.evaluate key a s'.world =
        s.client.withoutStore.evaluate key a s'.world := by rw [h.client]
    refine h.answer id ?_ ?_
    · simp only [Client.ask,hclient]
      exact congrArg (Except.map q.read) hsame
    · simp only [Client.ask,hclient]
      exact hx
  | run e a =>
    obtain ⟨hsame,hx⟩ := Client.run_of_unaided (hc _ (List.mem_singleton_self _)) h.exposures
    refine h.answer .assignment ?_ ?_
    · rw [h.client]
      exact hsame
    · rw [h.client]
      exact hx
  | evaluate c o tracker? key a =>
    obtain ⟨hsame,hx⟩ := Catalog.evaluate_of_unaided hc h.exposures tracker?
    exact h.answer .decision (by rw [hset]; exact hsame) (by rw [hset]; exact hx)
  | resolve f o a =>
    refine h.answer .decision ?_ ?_
    · rw [hset]
      exact Feature.resolve_of_unaided hc s'.world
    · rw [f.exposures_resolve,f.exposures_resolve,h.exposures]
  | assign e o a =>
    have hsame := (hc _ (List.mem_singleton_self _)).outcome_eq s'.world
    have hnone : s'.client.setting.store = none := by rw [h.client]; rfl
    refine h.answer .assignment ?_ ?_
    · rw [hnone]
      exact hsame
    · rw [e.exposures_assign,e.exposures_assign,h.exposures]
  | setCatalog c => exact ⟨rfl,by simp only [Session.perform,h.client]; rfl,h.exposures⟩

theorem Bares.after {s s' : Session ν σ} (h : s.Bares s') {cs : List (Call ν)}
    (hcs : ∀ t ∈ s.trials cs, t.Unaided) :
    s.replies cs = s'.replies cs ∧ (s.after cs).Bares (s'.after cs) := by
  induction cs generalizing s s' with
  | nil => exact ⟨rfl,h⟩
  | cons c cs ih =>
    obtain ⟨hreply,hbares⟩ := h.perform fun t ht => hcs t (List.mem_append_left _ ht)
    obtain ⟨hreplies,hafter⟩ := ih hbares fun t ht => hcs t (List.mem_append_right _ ht)
    exact ⟨by simp only [replies,hreply,hreplies],hafter⟩

end Session

/-- A store each of whose answers is of no use to the experiment that asks is the same as no store:
an assignment, a resolution, an evaluation and a run come to what they come to without one, faults
included, and report the same exposures. It does not matter which writes it takes nor how its
answers change from one question to the next, within one resolution or over a session. -/
theorem useless_store_is_no_store (store : Store σ) (o : Options) (a : Value) (w : World σ) :
    (∀ e : Experiment ν, Trial.Unaided ⟨e,⟨some store,o⟩,a,w⟩ →
      (e.assign (some store) o a w).1 = (e.assign none o a w).1) ∧
    (∀ f : Feature ν, (∀ t ∈ f.trials ⟨some store,o⟩ a w, t.Unaided) →
      (f.resolve ⟨some store,o⟩ a w).1 = (f.resolve ⟨none,o⟩ a w).1) ∧
    (∀ (c : Catalog ν) (tracker? : Option Tracker) (key : String),
      (∀ t ∈ c.trials ⟨some store,o⟩ key a w, t.Unaided) →
      (c.evaluate ⟨some store,o⟩ tracker? key a w).1 = (c.evaluate ⟨none,o⟩ tracker? key a w).1 ∧
        (c.evaluate ⟨some store,o⟩ tracker? key a w).2.exposures =
          (c.evaluate ⟨none,o⟩ tracker? key a w).2.exposures) ∧
    (∀ (c : Catalog ν) (tracker? : Option Tracker) (e : Experiment ν),
      Trial.Unaided ⟨e,⟨some store,o⟩,a.orEmpty,w⟩ →
      ((⟨c,⟨some store,o⟩,tracker?⟩ : Client ν σ).run e a w).1 =
          ((⟨c,⟨none,o⟩,tracker?⟩ : Client ν σ).run e a w).1 ∧
        ((⟨c,⟨some store,o⟩,tracker?⟩ : Client ν σ).run e a w).2.exposures =
          ((⟨c,⟨none,o⟩,tracker?⟩ : Client ν σ).run e a w).2.exposures) ∧
    ∀ (s : Session ν σ) (calls : List (Call ν)), (∀ t ∈ s.trials calls, t.Unaided) →
      s.replies calls = s.withoutStore.replies calls ∧
        (s.after calls).world.exposures = (s.withoutStore.after calls).world.exposures := by
  refine ⟨fun e h => h.outcome_eq w,fun f h => Feature.resolve_of_unaided h w,?_,?_,?_⟩
  · intro c tracker? key h
    exact Catalog.evaluate_of_unaided h rfl tracker?
  · intro c tracker? e h
    exact Client.run_of_unaided (c := ⟨c,⟨some store,o⟩,tracker?⟩) h rfl
  · intro s calls h
    have hbares : s.Bares s.withoutStore := ⟨rfl,rfl⟩
    obtain ⟨hreplies,hafter⟩ := hbares.after h
    exact ⟨hreplies,hafter.exposures⟩

/-- A store that answers in another useless way each time, and refuses every other write. -/
def Store.fickle : Store Nat where
  read n _ _ :=
    (match n % 4 with
      | 0 => .failed
      | 1 => .found (.bool true)
      | 2 => .found (.int 2)
      | _ => .found .null,n + 1)
  write n _ _ _ := (n % 2 == 0,n + 1)

theorem Store.unaided_of_fickle {t : Trial ν Nat} (hs : t.setting.store = some .fickle)
    (hcount : t.experiment.count = 2) : t.Unaided := by
  intro subject _ store hstore
  obtain rfl : Store.fickle = store := Option.some.inj (hs.symm.trans hstore)
  rw [hcount]
  dsimp only [Store.fickle]
  split
  · exact .failed
  · exact .noInteger (by simp)
  · exact .outOfRange (.inr (Int.le_refl 2))
  · exact .noInteger (by simp)

/-- An experiment whose variations are passed through, then one whose variations are not. -/
def Feature.passedThrough : Feature Rat where
  key := "banner"
  default := .null
  rules :=
    let e : Experiment Rat := .ofVariations "first" [.str "a",.str "b"]
    [.when none (.experiment { e with info := [⟨none,none,true⟩,⟨none,none,true⟩] }),
      .when none (.experiment (.ofVariations "second" [.str "c",.str "d"]))]

def Session.fickle : Session Rat Nat where
  client := ⟨⟨[.passedThrough]⟩,⟨some .fickle,.default⟩,some ⟨fun _ _ => true⟩⟩
  world := ⟨0,[],[]⟩

def Call.twice : List (Call Rat) :=
  let a : Value := .map [(.str "id",.str "u1")]
  [.ask .decision "banner" a,.ask .decision "banner" a]

theorem fickle_store_is_no_store :
    (Session.fickle.trials Call.twice).length = 4 ∧
      (∀ t ∈ Session.fickle.trials Call.twice, t.Unaided) ∧
      Session.fickle.replies Call.twice = Session.fickle.withoutStore.replies Call.twice ∧
      (Session.fickle.withoutStore.after Call.twice).world.exposures =
        [⟨some "banner","second",0,"u1"⟩,⟨some "banner","second",0,"u1"⟩] := by
  have hcount : ∀ t ∈ Session.fickle.trials Call.twice, t.experiment.count = 2 := by
    decide +kernel
  have hunaided : ∀ t ∈ Session.fickle.trials Call.twice, t.Unaided := fun t ht =>
    Store.unaided_of_fickle (Session.store_of_mem_trials ht) (hcount t ht)
  obtain ⟨-,-,-,-,hsession⟩ := useless_store_is_no_store (ν := Rat) Store.fickle .default .null
    Session.fickle.world
  obtain ⟨hreplies,hexposures⟩ := hsession Session.fickle Call.twice hunaided
  exact ⟨by decide +kernel,hunaided,hreplies,hexposures ▸ by decide +kernel⟩

end FlagEngine
