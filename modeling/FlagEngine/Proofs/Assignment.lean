import FlagEngine.Assignment
import FlagEngine.Memory
import Mathlib.Tactic.Common

/-! Assignments on a store in memory. An assignment takes one of five courses, and only one of them
writes: a subject that memory does not know is drawn for a variation. `outcome_assign` and
`store_assign` read the result and the memory afterwards off the course; what follows about
assignments on memory is argued on courses alone. -/
namespace FlagEngine

/-- The ways in which an assignment on memory may go. -/
inductive Course (ν : Type)
  | failed (fault : Fault)
  /-- Settled at the entry: memory is not asked. -/
  | settled (x : Assignment ν)
  /-- Memory holds an index of the experiment. -/
  | recalled (subject : String) (index : Nat)
  /-- Memory holds none, and no range has the subject's point. -/
  | missed (subject : String)
  | drawn (subject : String) (index : Nat) (point : ν)

namespace Course

variable {ν : Type} [Fraction ν]

def outcome (e : Experiment ν) : Course ν → Except Fault (Assignment ν)
  | .failed f => .error f
  | .settled x => .ok x
  | .recalled h i => .ok (e.takeIn i (.sticky h))
  | .missed h => .ok (.excluded (some h))
  | .drawn h i n => .ok (e.takeIn i (.placed h n))

def memory (e : Experiment ν) (m : Memory) : Course ν → Memory
  | .drawn h i _ => m.set e.key h i
  | _ => m

end Course

namespace Experiment

variable {ν : Type}

/-- The experiment for which nothing is said but its key and its variations. -/
def ofVariations (key : String) (variations : List Value) : Experiment ν where
  key := key
  variations := variations
  weights := none
  coverage := none
  buckets := []
  seed := none
  hashAttribute := "id"
  hashVersion := 1
  space := none
  filters := []
  info := []
  force := none
  active := true
  condition := none
  name := none
  phase := none

/-- The index that memory holds for a subject, if it is one of the experiment. -/
def held? (e : Experiment ν) (m : Memory) (subject : String) : Option Nat :=
  match m.get? e.key subject with
  | some i => if 0 ≤ i ∧ i < e.count then some i.toNat else none
  | none => none

theorem held?_eq_some_iff (e : Experiment ν) (m : Memory) (subject : String) (i : Nat) :
    e.held? m subject = some i ↔ m.get? e.key subject = some (i : Int) ∧ i < e.count := by
  unfold held?
  cases m.get? e.key subject with
  | none => simp
  | some j =>
    by_cases hj : 0 ≤ j ∧ j < e.count
    · simp only [hj,and_self,if_true,Option.some.injEq]
      omega
    · simp only [hj,if_false,Option.some.injEq,reduceCtorEq,false_iff]
      omega

theorem takeIn_of_count_le (e : Experiment ν) {i : Nat} (origin : Origin ν) (h : e.count ≤ i) :
    e.takeIn i origin = .excluded origin.subject? := by
  have hv : e.variations[i]? = none := List.getElem?_eq_none h
  simp [takeIn,hv]

theorem exists_takeIn_of_lt (e : Experiment ν) {i : Nat} (origin : Origin ν) (h : i < e.count) :
    ∃ x, e.takeIn i origin = .included x := by
  have hv : e.variations[i]? = some e.variations[i] := List.getElem?_eq_getElem h
  have hi : ¬ (i : Int) < 0 := by omega
  simp [takeIn,hv,hi]

/-- Whoever is taken in has the index and the origin asked for, and a variation's value. -/
theorem takeIn_eq_included {e : Experiment ν} {i : Int} {origin : Origin ν} {x : Inclusion ν}
    (h : e.takeIn i origin = .included x) :
    (x.index : Int) = i ∧ x.origin = origin ∧ x.index < e.count ∧
      e.variations[x.index]? = some x.value := by
  unfold takeIn at h
  split at h
  · simp at h
  · rename_i hi
    cases hv : e.variations[i.toNat]? with
    | none => simp [hv] at h
    | some v =>
      have hx := Assignment.included.inj (by simpa only [hv] using h)
      subst hx
      exact ⟨by simp; omega,rfl,(List.getElem?_eq_some_iff.mp hv).1,hv⟩

/-- Reading memory finds the index held, and leaves memory alone. -/
theorem stored_memory (e : Experiment ν) (subject : String) (w : World Memory) :
    (e.stored Memory.store subject w).1 = e.held? w.store subject ∧
      (e.stored Memory.store subject w).2.store = w.store := by
  simp only [stored,held?,Memory.store]
  cases w.store.get? e.key subject with
  | none => simp
  | some j => by_cases hj : 0 ≤ j ∧ j < e.count <;> simp [hj]

variable [Fraction ν]

/-- The course of a subject that may enter. -/
def enrollment (e : Experiment ν) (m : Memory) (subject : String) : Course ν :=
  match e.held? m subject with
  | some i => .recalled subject i
  | none =>
    match e.draw subject with
    | .error _ => .missed subject
    | .ok (i, n) => .drawn subject i n

def course (e : Experiment ν) (o : Options) (a : Value) (m : Memory) : Course ν :=
  match e.entry o a with
  | .error stop => .failed stop.fault
  | .ok (.excluded _) => .settled (.excluded (e.subject? a))
  | .ok (.forced i) => .settled (e.takeIn i (.forced (e.subject? a)))
  | .ok (.pinned i) => .settled (e.takeIn i (.forced (e.subject? a)))
  | .ok (.eligible subject) => e.enrollment m subject

theorem enrollment_of_held {e : Experiment ν} {m : Memory} {subject : String} {i : Nat}
    (h : e.held? m subject = some i) : e.enrollment m subject = .recalled subject i := by
  simp [enrollment,h]

theorem enrollment_of_not_held {e : Experiment ν} {m : Memory} {subject : String}
    (h : e.held? m subject = none) :
    e.enrollment m subject =
      match e.draw subject with
      | .error _ => .missed subject
      | .ok (i, n) => .drawn subject i n := by
  simp [enrollment,h]

theorem enrollment_eq_drawn {e : Experiment ν} {m : Memory} {subject h : String} {i : Nat} {n : ν}
    (hc : e.enrollment m subject = .drawn h i n) :
    h = subject ∧ e.held? m subject = none ∧ e.draw subject = .ok (i, n) := by
  cases hh : e.held? m subject with
  | some j => simp [enrollment_of_held hh] at hc
  | none =>
    rw [enrollment_of_not_held hh] at hc
    cases hd : e.draw subject with
    | error r => simp [hd] at hc
    | ok r =>
      obtain ⟨j,p⟩ := r
      simp only [hd,Course.drawn.injEq] at hc
      obtain ⟨rfl,rfl,rfl⟩ := hc
      exact ⟨rfl,rfl,rfl⟩

/-- Only a subject that may enter and that memory does not know is drawn. -/
theorem course_eq_drawn {e : Experiment ν} {o : Options} {a : Value} {m : Memory} {h : String}
    {i : Nat} {n : ν} (hc : e.course o a m = .drawn h i n) :
    e.entry o a = .ok (.eligible h) ∧ e.held? m h = none ∧ e.draw h = .ok (i, n) := by
  unfold course at hc
  split at hc <;> try contradiction
  rename_i subject he
  obtain ⟨rfl,hh,hd⟩ := enrollment_eq_drawn hc
  exact ⟨he,hh,hd⟩

theorem course_eq_recalled {e : Experiment ν} {o : Options} {a : Value} {m : Memory} {h : String}
    {i : Nat} (hc : e.course o a m = .recalled h i) :
    e.entry o a = .ok (.eligible h) ∧ e.held? m h = some i := by
  unfold course at hc
  split at hc <;> try contradiction
  rename_i subject he
  cases hh : e.held? m subject with
  | some j =>
    rw [enrollment_of_held hh,Course.recalled.injEq] at hc
    obtain ⟨rfl,rfl⟩ := hc
    exact ⟨he,hh⟩
  | none =>
    rw [enrollment_of_not_held hh] at hc
    cases hd : e.draw subject <;> simp [hd] at hc

/-- What is settled at the entry takes nobody in but by force. -/
theorem isForced_of_settled {e : Experiment ν} {o : Options} {a : Value} {m : Memory}
    {x : Inclusion ν} (hc : e.course o a m = .settled (.included x)) : x.origin.isForced = true := by
  unfold course at hc
  split at hc
  · contradiction
  · simp at hc
  · rw [(takeIn_eq_included (Course.settled.inj hc)).2.1]; rfl
  · rw [(takeIn_eq_included (Course.settled.inj hc)).2.1]; rfl
  · rename_i subject he
    unfold enrollment at hc
    split at hc <;> try contradiction
    split at hc <;> contradiction

theorem place_memory (e : Experiment ν) (subject : String) (w : World Memory) :
    (e.place (some Memory.store) subject w).1 =
        (match e.draw subject with
          | .error _ => .excluded (some subject)
          | .ok (i, n) => e.takeIn i (.placed subject n)) ∧
      (e.place (some Memory.store) subject w).2.store =
        (match e.draw subject with
          | .error _ => w.store
          | .ok (i, _) => w.store.set e.key subject i) := by
  unfold place
  cases e.draw subject with
  | error r => simp
  | ok r => simp [write,Memory.store]

theorem enroll_memory (e : Experiment ν) (subject : String) (w : World Memory) :
    (e.enrollment w.store subject).outcome e = .ok (e.enroll (some Memory.store) subject w).1 ∧
      (e.enroll (some Memory.store) subject w).2.store =
        (e.enrollment w.store subject).memory e w.store := by
  have hs := e.stored_memory subject w
  have hp := e.place_memory subject (e.stored Memory.store subject w).2
  rw [hs.2] at hp
  unfold enroll enrollment
  rw [← hs.1]
  rcases h : e.stored Memory.store subject w with ⟨_ | i,w'⟩
  · simp only [h] at hp ⊢
    rw [hp.1,hp.2]
    cases e.draw subject <;> simp [Course.outcome,Course.memory]
  · simp only [h] at hs ⊢
    exact ⟨rfl,hs.2⟩

/-- What an assignment on memory results in. -/
theorem outcome_assign (e : Experiment ν) (o : Options) (a : Value) (w : World Memory) :
    (e.assign (some Memory.store) o a w).1 = (e.course o a w.store).outcome e := by
  unfold assign course
  rcases e.entry o a with f | x
  · rfl
  · cases x with
    | excluded r => rfl
    | forced i => rfl
    | pinned i => rfl
    | eligible subject => exact (e.enroll_memory subject _).1.symm

/-- The memory that an assignment leaves. -/
theorem store_assign (e : Experiment ν) (o : Options) (a : Value) (w : World Memory) :
    (e.assign (some Memory.store) o a w).2.store = (e.course o a w.store).memory e w.store := by
  unfold assign course
  rcases e.entry o a with f | x
  · rfl
  · cases x with
    | excluded r => rfl
    | forced i => rfl
    | pinned i => rfl
    | eligible subject => exact (e.enroll_memory subject _).2

end Experiment
end FlagEngine
