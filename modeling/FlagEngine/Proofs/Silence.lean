import FlagEngine.Proofs.Agreement
import Mathlib.Data.List.Basic

/-! Rules that say nothing. A rule is silent if, wherever it stands, it gives no verdict and leaves
the store and the exposures alone. Silent rules may be put in and taken out anywhere: the resolution
comes to the same, but that the rule which decides stands elsewhere. `Scattered` says of two lists
of rules that the one stands in the other between silent rules, and where each rule has gone. -/
namespace FlagEngine

variable {ν σ : Type}

theorem World.Agrees.trans {u v w : World σ} (h : u.Agrees v) (h' : v.Agrees w) : u.Agrees w :=
  ⟨h.store.trans h'.store,h.exposures.trans h'.exposures⟩

/-- The verdict of a rule that stands elsewhere. -/
def Verdict.move (φ : Nat → Nat) : Verdict ν → Verdict ν
  | .force r v => .force (φ r) v
  | .rollout r v s n => .rollout (φ r) v s n
  | .experiment r k x => .experiment (φ r) k x
  | v => v

namespace Decision

def move (φ : Nat → Nat) (d : Decision ν) : Decision ν := { d with verdict := d.verdict.move φ }

@[simp] theorem feature_move (φ : Nat → Nat) (d : Decision ν) : (d.move φ).feature = d.feature := rfl

@[simp] theorem ruleIndex?_move (φ : Nat → Nat) (d : Decision ν) :
    (d.move φ).ruleIndex? = d.ruleIndex?.map φ := by
  obtain ⟨k,v⟩ := d
  cases v <;> rfl

@[simp] theorem kind_move (φ : Nat → Nat) (d : Decision ν) : (d.move φ).kind = d.kind := by
  obtain ⟨k,v⟩ := d
  cases v <;> rfl

@[simp] theorem value_move (φ : Nat → Nat) (d : Decision ν) : (d.move φ).value = d.value := by
  obtain ⟨k,v⟩ := d
  cases v <;> rfl

@[simp] theorem inclusion?_move (φ : Nat → Nat) (d : Decision ν) :
    (d.move φ).inclusion? = d.inclusion? := by
  obtain ⟨k,v⟩ := d
  cases v <;> rfl

@[simp] theorem subject?_move (φ : Nat → Nat) (d : Decision ν) :
    (d.move φ).subject? = d.subject? := by
  obtain ⟨k,v⟩ := d
  cases v <;> rfl

@[simp] theorem point?_move (φ : Nat → Nat) (d : Decision ν) : (d.move φ).point? = d.point? := by
  obtain ⟨k,v⟩ := d
  cases v <;> rfl

@[simp] theorem exposure?_move (φ : Nat → Nat) (d : Decision ν) :
    (d.move φ).exposure? = d.exposure? := by
  obtain ⟨k,v⟩ := d
  cases v <;> rfl

@[simp] theorem move_id (d : Decision ν) : d.move id = d := by
  obtain ⟨k,v⟩ := d
  cases v <;> rfl

theorem move_move (φ ψ : Nat → Nat) (d : Decision ν) : (d.move φ).move ψ = d.move (ψ ∘ φ) := by
  obtain ⟨k,v⟩ := d
  cases v <;> rfl

end Decision

variable [Fraction ν]

open World (Alike)

/-- The same rule at two places comes to the same, but for the place. -/
theorem RuleBody.verdict?_move (s : Setting σ) (feature : String) (φ : Nat → Nat) (i : Nat)
    (a : Value) {w w' : World σ} (h : w.Agrees w') (body : RuleBody ν) :
    Alike ((body.verdict? s feature i a w).1.map (Option.map (Verdict.move φ)),
      (body.verdict? s feature i a w).2) (body.verdict? s feature (φ i) a w') := by
  cases body with
  | force value filters =>
    refine ⟨?_,h⟩
    simp only [verdict?]
    split <;> rfl
  | rollout r =>
    simp only [verdict?]
    split
    · exact ⟨rfl,h⟩
    · cases r.covered? a with
      | none => exact ⟨rfl,h.note _ _⟩
      | some p => exact ⟨rfl,h⟩
  | experiment e =>
    obtain ⟨x,v,v',hr,hr',hv⟩ :=
      (Experiment.assign_alike (.refl e a) s.store s.options h).split
    simp only [verdict?,hr,hr']
    rcases x with fault | _ | x
    · exact ⟨rfl,hv⟩
    · exact ⟨rfl,hv⟩
    · refine ⟨?_,hv⟩
      dsimp only
      split <;> rfl
  | unknown => exact ⟨rfl,h.note _ _⟩

namespace Rule

theorem verdict?_move (s : Setting σ) (feature : String) (φ : Nat → Nat) (i : Nat) (a : Value)
    {w w' : World σ} (h : w.Agrees w') (r : Rule ν) :
    Alike ((r.verdict? s feature i a w).1.map (Option.map (Verdict.move φ)),
      (r.verdict? s feature i a w).2) (r.verdict? s feature (φ i) a w') := by
  cases r with
  | invalid reason => exact ⟨rfl,h.note _ _⟩
  | when c body =>
    unfold verdict?
    dsimp only
    split
    · exact ⟨rfl,h.noteAll _ _⟩
    · split
      · exact body.verdict?_move s feature φ i a (h.noteAll _ _)
      · exact ⟨rfl,(h.noteAll _ _).note _ _⟩

/-- Wherever it stands, the rule gives no verdict and leaves the store and the exposures alone. -/
def Silent (s : Setting σ) (feature : String) (a : Value) (r : Rule ν) : Prop :=
  ∀ i w, Alike (r.verdict? s feature i a w) (.ok none, w)

/-- Wherever it stands, the rule ends in a fault. -/
def Fails (s : Setting σ) (feature : String) (a : Value) (x : Fault) (r : Rule ν) : Prop :=
  ∀ i w, (r.verdict? s feature i a w).1 = .error x

theorem silent_of_invalid (s : Setting σ) (feature : String) (a : Value) (reason : String) :
    (invalid reason : Rule ν).Silent s feature a :=
  fun _ _ => ⟨rfl,rfl,rfl⟩

/-- The first list stands in the second, in order and between rules of some kind: from the `i`-th
place of the first and the `j`-th of the second on, its `k`-th rule stands at `φ k`. -/
inductive Scattered (P : Rule ν → Prop) (φ : Nat → Nat) :
    Nat → List (Rule ν) → Nat → List (Rule ν) → Prop
  | nil (i j : Nat) : Scattered P φ i [] j []
  | keep {i j : Nat} {rs qs : List (Rule ν)} (r : Rule ν) (hij : φ i = j)
    (h : Scattered P φ (i + 1) rs (j + 1) qs) : Scattered P φ i (r :: rs) j (r :: qs)
  | skip {i j : Nat} {rs qs : List (Rule ν)} {r : Rule ν} (hr : P r)
    (h : Scattered P φ i rs (j + 1) qs) : Scattered P φ i rs j (r :: qs)

omit [Fraction ν] in
theorem Scattered.refl {P : Rule ν → Prop} {φ : Nat → Nat} {i j : Nat} (rs : List (Rule ν))
    (h : ∀ k, φ (i + k) = j + k) : Scattered P φ i rs j rs := by
  induction rs generalizing i j with
  | nil => exact .nil i j
  | cons r rs ih =>
    refine .keep r (h 0) (ih fun k => ?_)
    have hk := h (1 + k)
    rw [← Nat.add_assoc,← Nat.add_assoc] at hk
    exact hk

end Rule

namespace Feature

open Rule (Scattered)

/-- Features with the same key and default, the rules of the one standing among rules of the other
that are silent or fail: they come to the same but for the place of the rule that decides, unless
the other ends in a fault of those that fail. -/
theorem resolveFrom_scattered {s : Setting σ} {f f' : Feature ν} (hkey : f'.key = f.key)
    (hdefault : f'.default = f.default) {a : Value} {P : Rule ν → Prop} {F : Fault → Prop}
    (hP : ∀ r, P r → r.Silent s f.key a ∨ ∃ x, F x ∧ r.Fails s f.key a x) {φ : Nat → Nat}
    {i j : Nat} {rs qs : List (Rule ν)} (h : Scattered P φ i rs j qs) {w w' : World σ}
    (hw : w.Agrees w') :
    Alike ((f.resolveFrom s a i rs w).1.map (Verdict.move φ),(f.resolveFrom s a i rs w).2)
        (f'.resolveFrom s a j qs w') ∨
      ∃ x, F x ∧ (f'.resolveFrom s a j qs w').1 = .error x := by
  induction h generalizing w w' with
  | nil i j => exact .inl ⟨by simp [resolveFrom,hdefault,Except.map,Verdict.move],hw⟩
  | @keep i j rs qs r hij _ ih =>
    have hr := r.verdict?_move s f.key φ i a hw
    rw [hij] at hr
    simp only [resolveFrom,hkey]
    rcases hv : r.verdict? s f.key i a w with ⟨x,v⟩
    rcases hv' : r.verdict? s f.key j a w' with ⟨x',v'⟩
    rw [hv,hv'] at hr
    obtain ⟨hx,hagree⟩ := hr
    obtain rfl : x.map (Option.map (Verdict.move φ)) = x' := hx
    rcases x with fault | _ | y
    · exact .inl ⟨rfl,hagree⟩
    · exact ih hagree
    · exact .inl ⟨rfl,hagree⟩
  | @skip i j rs qs r hr _ ih =>
    rcases hP r hr with hsilent | ⟨x,hx,hfails⟩
    · obtain ⟨y,v,v',hv,hv',hagree⟩ := (hsilent j w').split
      obtain ⟨rfl,rfl⟩ := Prod.mk.inj hv'
      simp only [resolveFrom,hkey,hv]
      exact ih ⟨hw.store.trans hagree.store.symm,hw.exposures.trans hagree.exposures.symm⟩
    · refine .inr ⟨x,hx,?_⟩
      have hfirst := hfails j w'
      rcases hv : r.verdict? s f.key j a w' with ⟨y,v⟩
      rw [hv] at hfirst
      obtain rfl : y = .error x := hfirst
      simp only [resolveFrom,hkey,hv]

theorem resolve_scattered {s : Setting σ} {f f' : Feature ν} (hkey : f'.key = f.key)
    (hdefault : f'.default = f.default) {a : Value} {P : Rule ν → Prop} {F : Fault → Prop}
    (hP : ∀ r, P r → r.Silent s f.key a ∨ ∃ x, F x ∧ r.Fails s f.key a x) {φ : Nat → Nat}
    (h : Scattered P φ 0 f.rules 0 f'.rules) {w w' : World σ} (hw : w.Agrees w') :
    Alike ((f.resolve s a w).1.map (Decision.move φ),(f.resolve s a w).2) (f'.resolve s a w') ∨
      ∃ x, F x ∧ (f'.resolve s a w').1 = .error x := by
  unfold resolve
  rcases resolveFrom_scattered hkey hdefault hP h hw with ⟨hsame,hagree⟩ | ⟨x,hx,hfails⟩
  · refine .inl ⟨?_,hagree⟩
    dsimp only at hsame ⊢
    rw [← hsame,hkey]
    rcases (f.resolveFrom s a 0 f.rules w).1 with fault | v <;> rfl
  · refine .inr ⟨x,hx,?_⟩
    dsimp only
    rw [hfails]
    rfl

/-- Silent rules make no difference but to the places of the others. -/
theorem resolve_among_silent {s : Setting σ} {f f' : Feature ν} (hkey : f'.key = f.key)
    (hdefault : f'.default = f.default) {a : Value} {P : Rule ν → Prop}
    (hP : ∀ r, P r → r.Silent s f.key a) {φ : Nat → Nat} (h : Scattered P φ 0 f.rules 0 f'.rules)
    {w w' : World σ} (hw : w.Agrees w') :
    Alike ((f.resolve s a w).1.map (Decision.move φ),(f.resolve s a w).2) (f'.resolve s a w') := by
  have hor := resolve_scattered (F := fun _ => False) hkey hdefault (fun r hr => .inl (hP r hr)) h hw
  exact hor.resolve_right fun ⟨_,hno,_⟩ => hno

end Feature
end FlagEngine
