import FlagEngine.Proofs.Session

/-! Stores with a record of the calls made on them: what was read, with the answer, and what was
written, with whether it was taken. The record is all that is added; assignments, resolutions and
evaluations come to the same on a recorded store, and so the calls that an evaluation makes on its
store are those on record after it has run with an empty one. -/
namespace FlagEngine

variable {ν σ : Type}

inductive StoreCall
  | read (experiment subject : String) (answer : Reading)
  | write (experiment subject : String) (index : Nat) (done : Bool)

/-- A state of a store and the calls made so far. -/
abbrev Recorded (σ : Type) : Type := σ × List StoreCall

def Store.recorded (store : Store σ) : Store (Recorded σ) where
  read m experiment subject :=
    let (answer, s) := store.read m.1 experiment subject
    (answer, (s, m.2 ++ [.read experiment subject answer]))
  write m experiment subject index :=
    let (done, s) := store.write m.1 experiment subject index
    (done, (s, m.2 ++ [.write experiment subject index done]))

def Setting.recorded (s : Setting σ) : Setting (Recorded σ) :=
  ⟨s.store.map Store.recorded,s.options⟩

namespace World

/-- The world with nothing on record yet. -/
def recording (w : World σ) : World (Recorded σ) := ⟨(w.store, []),w.exposures,w.events⟩

/-- The world without the record. -/
def plain (w : World (Recorded σ)) : World σ := ⟨w.store.1,w.exposures,w.events⟩

/-- The same answer, in worlds that are the same but for the record. -/
def Mirrors {α : Type} (r : α × World (Recorded σ)) (r' : α × World σ) : Prop :=
  r.1 = r'.1 ∧ r.2.plain = r'.2

theorem Mirrors.split {α : Type} {r : α × World (Recorded σ)} {r' : α × World σ}
    (h : Mirrors r r') : ∃ x w, r = (x, w) ∧ r' = (x, w.plain) := by
  obtain ⟨x,w⟩ := r
  obtain ⟨x',w'⟩ := r'
  obtain ⟨rfl,rfl⟩ := h
  exact ⟨x,w,rfl,rfl⟩

end World

open World (Mirrors)

namespace Experiment

theorem stored_recorded (e : Experiment ν) (store : Store σ) (subject : String)
    (w : World (Recorded σ)) :
    Mirrors (e.stored store.recorded subject w) (e.stored store subject w.plain) := by
  rcases hr : store.read w.store.1 e.key subject with ⟨answer,s⟩
  simp only [stored,Store.recorded,World.plain,hr]
  rcases answer with _ | v
  · exact ⟨rfl,rfl⟩
  · -- Only an integer is looked at further.
    rcases v with (_ | _ | i | _ | _ | _ | _ | _) | _ | _ | _ | _
    case scalar.int =>
      dsimp only
      split <;> exact ⟨rfl,rfl⟩
    all_goals exact ⟨rfl,rfl⟩

theorem write_recorded (e : Experiment ν) (store? : Option (Store σ)) (subject : String) (i : Nat)
    (w : World (Recorded σ)) :
    (e.write (store?.map Store.recorded) subject i w).plain = e.write store? subject i w.plain := by
  cases store? with
  | none => rfl
  | some store =>
    rcases hr : store.write w.store.1 e.key subject i with ⟨_ | _,s⟩ <;>
      simp only [write,Option.map_some,Store.recorded,World.plain,hr] <;> rfl

variable [Fraction ν]

theorem place_recorded (e : Experiment ν) (store? : Option (Store σ)) (subject : String)
    (w : World (Recorded σ)) :
    Mirrors (e.place (store?.map Store.recorded) subject w) (e.place store? subject w.plain) := by
  unfold place
  rcases e.draw subject with r | ⟨i,n⟩
  · exact ⟨rfl,rfl⟩
  · refine ⟨rfl,?_⟩
    dsimp only
    rw [← e.write_recorded store? subject i w]
    rfl

theorem enroll_recorded (e : Experiment ν) (store? : Option (Store σ)) (subject : String)
    (w : World (Recorded σ)) :
    Mirrors (e.enroll (store?.map Store.recorded) subject w) (e.enroll store? subject w.plain) := by
  cases store? with
  | none => exact e.place_recorded none subject w
  | some store =>
    obtain ⟨i?,v,hr,hr'⟩ := (e.stored_recorded store subject w).split
    simp only [enroll,Option.map_some,hr,hr']
    cases i? with
    | none => exact e.place_recorded (some store) subject v
    | some i => exact ⟨rfl,rfl⟩

theorem assign_recorded (e : Experiment ν) (store? : Option (Store σ)) (o : Options) (a : Value)
    (w : World (Recorded σ)) :
    Mirrors (e.assign (store?.map Store.recorded) o a w) (e.assign store? o a w.plain) := by
  unfold assign
  rcases e.entry o a with fault | x
  · exact ⟨rfl,rfl⟩
  · cases x with
    | eligible subject =>
      obtain ⟨hsame,hplain⟩ :=
        e.enroll_recorded store? subject (w.noteAll (e.entryNotes a (.eligible subject)))
      exact ⟨congrArg Except.ok hsame,hplain⟩
    | _ => exact ⟨rfl,rfl⟩

/-- The calls that an assignment makes on its store, in order. -/
def storeCalls (e : Experiment ν) (store? : Option (Store σ)) (o : Options) (a : Value)
    (w : World σ) : List StoreCall :=
  (e.assign (store?.map Store.recorded) o a w.recording).2.store.2

end Experiment

variable [Fraction ν]

theorem RuleBody.verdict?_recorded (s : Setting σ) (feature : String) (i : Nat) (a : Value)
    (w : World (Recorded σ)) (body : RuleBody ν) :
    Mirrors (body.verdict? s.recorded feature i a w) (body.verdict? s feature i a w.plain) := by
  cases body with
  | force value filters => exact ⟨rfl,rfl⟩
  | rollout r =>
    unfold verdict?
    dsimp only
    split
    · exact ⟨rfl,rfl⟩
    · cases r.covered? a <;> exact ⟨rfl,rfl⟩
  | experiment e =>
    obtain ⟨x,v,hr,hr'⟩ := (e.assign_recorded s.store s.options a w).split
    simp only [verdict?,Setting.recorded,hr,hr']
    rcases x with fault | _ | x <;> exact ⟨rfl,rfl⟩
  | unknown => exact ⟨rfl,rfl⟩

theorem Rule.verdict?_recorded (s : Setting σ) (feature : String) (i : Nat) (a : Value)
    (w : World (Recorded σ)) (r : Rule ν) :
    Mirrors (r.verdict? s.recorded feature i a w) (r.verdict? s feature i a w.plain) := by
  cases r with
  | invalid reason => exact ⟨rfl,rfl⟩
  | when c body =>
    unfold verdict?
    dsimp only
    split
    · exact ⟨rfl,rfl⟩
    · split
      · exact body.verdict?_recorded s feature i a (w.noteAll (Experiment.tooLong c a))
      · exact ⟨rfl,rfl⟩

namespace Feature

theorem resolveFrom_recorded (s : Setting σ) (f : Feature ν) (a : Value) (i : Nat)
    (rs : List (Rule ν)) (w : World (Recorded σ)) :
    Mirrors (f.resolveFrom s.recorded a i rs w) (f.resolveFrom s a i rs w.plain) := by
  induction rs generalizing i w with
  | nil => exact ⟨rfl,rfl⟩
  | cons r rs ih =>
    obtain ⟨x,v,hr,hr'⟩ := (r.verdict?_recorded s f.key i a w).split
    simp only [resolveFrom,hr,hr']
    rcases x with fault | _ | y
    · exact ⟨rfl,rfl⟩
    · exact ih (i + 1) v
    · exact ⟨rfl,rfl⟩

theorem resolve_recorded (s : Setting σ) (f : Feature ν) (a : Value) (w : World (Recorded σ)) :
    Mirrors (f.resolve s.recorded a w) (f.resolve s a w.plain) := by
  obtain ⟨hsame,hplain⟩ := f.resolveFrom_recorded s a 0 f.rules w
  exact ⟨congrArg (Except.map _) hsame,hplain⟩

/-- The calls that a resolution makes on its store, in order. -/
def storeCalls (s : Setting σ) (f : Feature ν) (a : Value) (w : World σ) : List StoreCall :=
  (f.resolve s.recorded a w.recording).2.store.2

end Feature

namespace Catalog

omit [Fraction ν] in
theorem report_recorded (tracker? : Option Tracker) (x? : Option Exposure)
    (w : World (Recorded σ)) : (report tracker? x? w).plain = report tracker? x? w.plain := by
  rcases tracker? with _ | t
  · rfl
  · rcases x? with _ | x
    · rfl
    · simp only [report,Tracker.report]
      have hexposures : (w.plain.expose x).exposures = (w.expose x).exposures := rfl
      rw [hexposures]
      split <;> rfl

/-- On a recorded store an evaluation comes to the same, and leaves the same but for the record. -/
theorem evaluate_recorded (c : Catalog ν) (s : Setting σ) (tracker? : Option Tracker)
    (key : String) (a : Value) (w : World (Recorded σ)) :
    Mirrors (c.evaluate s.recorded tracker? key a w) (c.evaluate s tracker? key a w.plain) := by
  cases hf : c.get? key with
  | none =>
    rw [evaluate_of_unknown hf,evaluate_of_unknown hf]
    exact ⟨rfl,rfl⟩
  | some f =>
    obtain ⟨x,v,hr,hr'⟩ := (f.resolve_recorded s a w).split
    simp only [evaluate,hf,hr,hr']
    cases x with
    | error fault => exact ⟨rfl,rfl⟩
    | ok d => exact ⟨rfl,report_recorded tracker? d.exposure? v⟩

/-- The calls that an evaluation makes on its store, in order. -/
def storeCalls (c : Catalog ν) (s : Setting σ) (tracker? : Option Tracker) (key : String)
    (a : Value) (w : World σ) : List StoreCall :=
  (c.evaluate s.recorded tracker? key a w.recording).2.store.2

end Catalog
end FlagEngine
