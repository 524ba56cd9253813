import FlagEngine.Proofs.Agreement
import FlagEngine.Proofs.Exclusion
import FlagEngine.Proofs.Recording

/-! Namespaces as filters. An experiment without filters lets in whom its namespace has; a filter of
the same seed, slice and attribute lets in the same subjects at the same place of the entry, and
only the reason noted for the others is another one. So namespaces may become filters anywhere in a
catalog: answers, calls on the store and exposures stay what they are. -/
namespace FlagEngine

variable {ν σ : Type}

/-- The filter that goes by the namespace and a subject's attribute. -/
def Namespace.asFilter (s : Namespace ν) (name : String) : Filter ν :=
  ⟨"__" ++ s.id,[s.bucket],name,1⟩

/-- The experiment with a filter in place of the namespace. -/
def Experiment.filteredBy (e : Experiment ν) (s : Namespace ν) : Experiment ν :=
  { e with space := none, filters := [s.asFilter e.hashAttribute] }

/-- The same rule, or the same experiment with a filter in place of its namespace. -/
inductive Rule.Recast : Rule ν → Rule ν → Prop
  | same (r : Rule ν) : Recast r r
  | filtered {c : Option Condition} {e : Experiment ν} {s : Namespace ν} (hf : e.filters = [])
      (hs : e.space = some s) :
      Recast (.when c (.experiment e)) (.when c (.experiment (e.filteredBy s)))

structure Feature.Recast (f f' : Feature ν) : Prop where
  key : f.key = f'.key
  default : f.default = f'.default
  rules : List.Forall₂ Rule.Recast f.rules f'.rules

def Catalog.Recast (c c' : Catalog ν) : Prop := List.Forall₂ Feature.Recast c.features c'.features

theorem Feature.find?_of_recast {fs fs' : List (Feature ν)}
    (h : List.Forall₂ Feature.Recast fs fs') (key : String) :
    fs.find? (·.key == key) = none ∧ fs'.find? (·.key == key) = none ∨
      ∃ f f', fs.find? (·.key == key) = some f ∧ fs'.find? (·.key == key) = some f' ∧
        f.Recast f' := by
  induction h with
  | nil => exact .inl ⟨rfl,rfl⟩
  | @cons f f' fs fs' hf _ ih =>
    by_cases hkey : f.key = key
    · have hkey' : f'.key = key := hf.key.symm.trans hkey
      exact .inr ⟨f,f',by simp [hkey],by simp [hkey'],hf⟩
    · have hkey' : f'.key ≠ key := fun h => hkey (hf.key.trans h)
      rw [List.find?_cons_of_neg (by simp [hkey]),List.find?_cons_of_neg (by simp [hkey'])]
      exact ih

/-- Under one key there is no feature in either catalog, or the same one recast. -/
theorem Catalog.Recast.get?_cases {c c' : Catalog ν} (hc : c.Recast c') (key : String) :
    c.get? key = none ∧ c'.get? key = none ∨
      ∃ f f', c.get? key = some f ∧ c'.get? key = some f' ∧ f.Recast f' :=
  Feature.find?_of_recast hc key

/-- The reason that a filter gives where a namespace gave its own. -/
def Exclusion.asFiltered : Exclusion → Exclusion
  | .outsideNamespace => .filteredOut
  | r => r

def Entry.asFiltered : Entry → Entry
  | .excluded r => .excluded r.asFiltered
  | x => x

variable [Fraction ν] {a : Value} {o : Options} {w w' : World σ}

open World (Alike)

theorem Namespace.keepsOut_asFilter {name subject : String} (s : Namespace ν)
    (h : a.subject? name = some subject) :
    Filter.keepsOut [s.asFilter name] a = !s.has subject := by
  cases hp : (Hash.point? ("__" ++ s.id) subject 1 : Option ν) with
  | none => simp [Filter.keepsOut,Filter.admits,asFilter,has,seed,h,hp]
  | some n => simp [Filter.keepsOut,Filter.admits,asFilter,has,seed,h,hp,Bucket.anyHas]

namespace Experiment

variable {e : Experiment ν} {s : Namespace ν} {subject : String}

theorem keptOut?_filteredBy (hf : e.filters = []) (hs : e.space = some s)
    (hsubject : e.subject? a = some subject) :
    (e.filteredBy s).keptOut? a subject = (e.keptOut? a subject).map Exclusion.asFiltered := by
  have hout : Filter.keepsOut (e.filteredBy s).filters a = !s.has subject :=
    s.keepsOut_asFilter hsubject
  have hfilters : (e.filteredBy s).filters.isEmpty = false := rfl
  have hempty : e.filters.isEmpty = true := by rw [hf]; rfl
  unfold keptOut?
  rw [hout,hfilters,hempty,hs]
  cases hhas : s.has subject <;> simp [hhas,Exclusion.asFiltered]

theorem exclusion?_filteredBy (hf : e.filters = []) (hs : e.space = some s)
    (hsubject : e.subject? a = some subject) :
    (e.filteredBy s).exclusion? o a subject =
      (e.exclusion? o a subject).map Exclusion.asFiltered := by
  unfold exclusion?
  rw [keptOut?_filteredBy hf hs hsubject]
  cases e.keptOut? a subject with
  | some r => rfl
  | none =>
    have hcondition : (e.filteredBy s).condition = e.condition := rfl
    rw [hcondition,Option.map_none]
    dsimp only
    split_ifs <;> rfl

/-- A filter in place of the namespace asks for the subject that was asked for before. -/
theorem admission_filteredBy (hf : e.filters = []) (hs : e.space = some s)
    (hwritten : a.overlongAt e.hashAttribute = false) (hsubject : e.subject? a = some subject) :
    (e.filteredBy s).admission o a subject = (e.admission o a subject).map Entry.asFiltered := by
  have hstumble : Filter.stumble (e.filteredBy s).filters a = false := by
    simp [filteredBy,Filter.stumble,Namespace.asFilter,hwritten]
  have hno : Filter.stumble e.filters a = false := by rw [hf]; rfl
  have hcondition : (e.filteredBy s).condition = e.condition := rfl
  unfold admission stumble?
  rw [hstumble,hno,hcondition,keptOut?_filteredBy hf hs hsubject,
    exclusion?_filteredBy hf hs hsubject,Option.isNone_map]
  cases (e.keptOut? a subject).isNone && stumbles e.condition a with
  | true => rfl
  | false => cases e.exclusion? o a subject <;> rfl

theorem entry_filteredBy (hf : e.filters = []) (hs : e.space = some s) :
    (e.filteredBy s).entry o a = (e.entry o a).map Entry.asFiltered := by
  have hcount : (e.filteredBy s).count = e.count := rfl
  have hforced : (e.filteredBy s).forcedBy o = e.forcedBy o := rfl
  have hactive : (e.filteredBy s).active = e.active := rfl
  have hforce : (e.filteredBy s).force = e.force := rfl
  have hattribute : (e.filteredBy s).hashAttribute = e.hashAttribute := rfl
  have hsubject : (e.filteredBy s).subject? a = e.subject? a := rfl
  unfold entry
  rw [hattribute,hcount,hforced,hactive,hforce,hsubject]
  split_ifs with hlong
  · rfl
  · rfl
  · rfl
  · rcases e.forcedBy o with fault | _ | i <;> rfl
  · rcases e.forcedBy o with fault | _ | i
    · rfl
    · cases hsub : e.subject? a with
      | none => rfl
      | some subject =>
        cases e.force with
        | some i => rfl
        | none =>
          exact admission_filteredBy hf hs (by simpa using hlong) hsub
    · rfl

theorem assign_filteredBy (hf : e.filters = []) (hs : e.space = some s)
    (store? : Option (Store σ)) (o : Options) (a : Value) (h : w.Agrees w') :
    Alike (e.assign store? o a w) ((e.filteredBy s).assign store? o a w') := by
  unfold assign
  rw [entry_filteredBy hf hs]
  cases e.entry o a with
  | error stop => exact ⟨rfl,h.noteAll _ _⟩
  | ok x =>
    have hn := h.noteAll (e.entryNotes a x) ((e.filteredBy s).entryNotes a x.asFiltered)
    cases x with
    | excluded r => exact ⟨rfl,hn⟩
    | forced i => exact ⟨rfl,hn⟩
    | pinned i => exact ⟨rfl,hn⟩
    | eligible subject =>
      obtain ⟨hsame,hagree⟩ := e.enroll_alike store? subject hn
      exact ⟨congrArg Except.ok hsame,hagree⟩

end Experiment

theorem Rule.Recast.speaksAs {r r' : Rule ν} (hr : r.Recast r') (u : Setting σ)
    (feature : String) (a : Value) : r.SpeaksAs u feature a a r' := by
  intro i w w' h
  cases hr with
  | same => exact Rule.verdict?_alike (r.equates_self a) u feature i h
  | @filtered c e s hf hs =>
    have hn := h.noteAll (Experiment.tooLong c a) (Experiment.tooLong c a)
    unfold verdict?
    dsimp only
    rw [stumbles_experiment,stumbles_experiment]
    split
    · exact ⟨rfl,hn⟩
    · split
      · obtain ⟨x,v,v',hr,hr',hv⟩ :=
          (Experiment.assign_filteredBy hf hs u.store u.options a hn).split
        have hkey : (e.filteredBy s).key = e.key := rfl
        simp only [RuleBody.verdict?,hr,hr',hkey]
        rcases x with fault | _ | x <;> exact ⟨rfl,hv⟩
      · exact ⟨rfl,hn.note _ _⟩

theorem Feature.Recast.resolve_alike {f f' : Feature ν} (hf : f.Recast f') (u : Setting σ)
    (a : Value) (h : w.Agrees w') : Alike (f.resolve u a w) (f'.resolve u a w') := by
  refine resolve_alike_of_rules hf.key hf.default ?_ h
  exact hf.rules.imp fun r r' hr => hr.speaksAs u f.key a

theorem Catalog.Recast.evaluate_alike {c c' : Catalog ν} (hc : c.Recast c') (u : Setting σ)
    (tracker? : Option Tracker) (key : String) (a : Value) (h : w.Agrees w') :
    Alike (c.evaluate u tracker? key a w) (c'.evaluate u tracker? key a w') := by
  refine evaluate_alike_of_get? ?_ rfl h
  rcases hc.get?_cases key with hno | ⟨f,f',hf,hf',hrecast⟩
  · exact .inl hno
  · exact .inr ⟨f,f',hf,hf',hrecast.resolve_alike u a h⟩

/-- An experiment without filters assigns as it does with a filter in place of its namespace, and
makes the same calls on its store; features and catalogs in which any experiments are recast in
this way come to the same decisions, with the same calls, stores and exposures. -/
theorem namespaces_are_filters {e : Experiment ν} {s : Namespace ν} (hf : e.filters = [])
    (hs : e.space = some s) :
    (∀ (store? : Option (Store σ)) (o : Options) (a : Value) (w : World σ),
      Alike (e.assign store? o a w) ((e.filteredBy s).assign store? o a w) ∧
        e.storeCalls store? o a w = (e.filteredBy s).storeCalls store? o a w) ∧
    (∀ f f' : Feature ν, f.Recast f' → ∀ (u : Setting σ) (a : Value) (w : World σ),
      Alike (f.resolve u a w) (f'.resolve u a w) ∧ f.storeCalls u a w = f'.storeCalls u a w) ∧
    (∀ c c' : Catalog ν, c.Recast c' → ∀ (u : Setting σ) (tracker? : Option Tracker)
      (key : String) (a : Value) (w : World σ),
      Alike (c.evaluate u tracker? key a w) (c'.evaluate u tracker? key a w) ∧
        c.storeCalls u tracker? key a w = c'.storeCalls u tracker? key a w) := by
  -- The calls are on record in the store, so runs that are alike on a recorded store have the same.
  have hcalls : ∀ {α : Type} {r r' : α × World (Recorded σ)}, Alike r r' →
      r.2.store.2 = r'.2.store.2 := fun h => congrArg Prod.snd h.2.store
  refine ⟨fun store? o a w => ⟨?_,?_⟩,fun f f' h u a w => ⟨?_,?_⟩,
    fun c c' h u tracker? key a w => ⟨?_,?_⟩⟩
  · exact Experiment.assign_filteredBy hf hs store? o a (.refl w)
  · exact hcalls (Experiment.assign_filteredBy hf hs _ o a (.refl _))
  · exact h.resolve_alike u a (.refl w)
  · exact hcalls (h.resolve_alike u.recorded a (.refl _))
  · exact h.evaluate_alike u tracker? key a (.refl w)
  · exact hcalls (h.evaluate_alike u.recorded tracker? key a (.refl _))

def Namespace.firstHalf : Namespace Float := ⟨"ns1",⟨0.0,0.5⟩⟩

/-- A feature with one experiment, on the first half of a namespace. -/
def Feature.onHalf (e : Experiment Float) : Feature Float :=
  ⟨"banner",.str "none",[.when none (.experiment e)]⟩

theorem half_may_become_a_filter :
    (Experiment.onHalf "exp-a" ⟨0.0,0.5⟩).filters = [] ∧
      (Experiment.onHalf "exp-a" ⟨0.0,0.5⟩).space = some Namespace.firstHalf ∧
      ((Feature.onHalf ((Experiment.onHalf "exp-a" ⟨0.0,0.5⟩).filteredBy .firstHalf)).resolve
        ⟨some Memory.store,.default⟩ (.map [(.str "id", .str "user42")])
          Session.sharing.world).1.map (·.value) = .ok (.str "b") := by
  have hf : (Experiment.onHalf "exp-a" ⟨0.0,0.5⟩).filters = [] := rfl
  have hs : (Experiment.onHalf "exp-a" ⟨0.0,0.5⟩).space = some Namespace.firstHalf := rfl
  have hvalue : ((Feature.onHalf (Experiment.onHalf "exp-a" ⟨0.0,0.5⟩)).resolve
      ⟨some Memory.store,.default⟩ (.map [(.str "id", .str "user42")])
        Session.sharing.world).1.map (·.value) = .ok (.str "b") := rfl
  obtain ⟨-,hfeature,-⟩ := namespaces_are_filters (σ := Memory) hf hs
  have hrecast : (Feature.onHalf (.onHalf "exp-a" ⟨0.0,0.5⟩)).Recast
      (.onHalf ((Experiment.onHalf "exp-a" ⟨0.0,0.5⟩).filteredBy .firstHalf)) :=
    ⟨rfl,rfl,.cons (.filtered hf hs) .nil⟩
  have hsame := (hfeature _ _ hrecast ⟨some Memory.store,.default⟩
    (.map [(.str "id", .str "user42")]) Session.sharing.world).1.1
  exact ⟨hf,hs,(congrArg (Except.map (·.value)) hsame).symm.trans hvalue⟩

end FlagEngine
