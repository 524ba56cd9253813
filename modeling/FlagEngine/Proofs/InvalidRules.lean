import FlagEngine.Catalog.Intake
import FlagEngine.Proofs.Malformed
import FlagEngine.Proofs.Recording
import FlagEngine.Proofs.Silence

/-! Invalid rules. An invalid rule is silent, so putting one in among the rules of a feature changes
no more than the places of the rules behind it; any number of them are put in one after another.
The same is followed from the raw rules on: a raw rule that is read as an invalid one becomes an
invalid rule at its place, and nothing else in the catalog changes. -/
namespace FlagEngine

section Insertion

variable {α β : Type}

/-- The list with an item put in at a place, or at its end if it is shorter. -/
def insertedAt (p : Nat) (x : α) (xs : List α) : List α := xs.take p ++ x :: xs.drop p

@[simp] theorem insertedAt_zero (x : α) (xs : List α) : insertedAt 0 x xs = x :: xs := rfl

@[simp] theorem insertedAt_nil (p : Nat) (x : α) : insertedAt p x [] = [x] := by
  simp [insertedAt]

@[simp] theorem insertedAt_succ_cons (p : Nat) (x y : α) (xs : List α) :
    insertedAt (p + 1) x (y :: xs) = y :: insertedAt p x xs := rfl

/-- Where an item stands after another is put in at a place. -/
def shiftedBy (p i : Nat) : Nat := if p ≤ i then i + 1 else i

/-- Where an item stands after others are put in one after another. -/
def shiftedByAll (ps : List Nat) (i : Nat) : Nat := ps.foldl (fun i p => shiftedBy p i) i

theorem shiftedByAll_cons (p : Nat) (ps : List Nat) :
    shiftedByAll (p :: ps) = shiftedByAll ps ∘ shiftedBy p := rfl

end Insertion

variable {ν σ : Type}

theorem Rule.Scattered.insertedAt {P : Rule ν → Prop} {r : Rule ν} (hr : P r) {φ : Nat → Nat}
    {p i j : Nat} {rs : List (Rule ν)} (hφ : ∀ k, φ (i + k) = j + shiftedBy p k) :
    Scattered P φ i rs j (insertedAt p r rs) := by
  induction p generalizing i j rs with
  | zero =>
    refine .skip hr (.refl rs fun k => ?_)
    rw [hφ k,shiftedBy,if_pos (Nat.zero_le k)]
    omega
  | succ p ih =>
    cases rs with
    | nil =>
      rw [insertedAt_nil]
      exact .skip hr (.nil i _)
    | cons x xs =>
      have hfirst : shiftedBy (p + 1) 0 = 0 := rfl
      refine .keep x (by simpa [hfirst] using hφ 0) (ih fun k => ?_)
      have hnext := hφ (k + 1)
      have hshift : shiftedBy (p + 1) (k + 1) = shiftedBy p k + 1 := by
        unfold shiftedBy
        split <;> split <;> omega
      rw [hshift] at hnext
      rw [show i + 1 + k = i + (k + 1) by omega,hnext]
      omega

/-- A place and the reason that the rule put in there shows. -/
abbrev Insertion : Type := Nat × String

namespace Feature

def withInvalid (f : Feature ν) (e : Insertion) : Feature ν :=
  { f with rules := insertedAt e.1 (.invalid e.2) f.rules }

def withInvalids (f : Feature ν) (es : List Insertion) : Feature ν := es.foldl withInvalid f

@[simp] theorem key_withInvalids (f : Feature ν) (es : List Insertion) :
    (f.withInvalids es).key = f.key := by
  induction es generalizing f with
  | nil => rfl
  | cons e es ih => exact ih (f.withInvalid e)

end Feature

variable [Fraction ν]

open World (Alike)

namespace Feature

theorem resolve_withInvalid (f : Feature ν) (e : Insertion) (s : Setting σ) (a : Value)
    {w w' : World σ} (hw : w.Agrees w') :
    Alike ((f.resolve s a w).1.map (Decision.move (shiftedBy e.1)),(f.resolve s a w).2)
      ((f.withInvalid e).resolve s a w') := by
  have hinvalid : ∀ r : Rule ν, r = .invalid e.2 → r.Silent s f.key a := by
    rintro r rfl
    exact Rule.silent_of_invalid s f.key a e.2
  have hscattered : Rule.Scattered (· = .invalid e.2) (shiftedBy e.1) 0 f.rules 0
      (f.withInvalid e).rules :=
    .insertedAt (P := (· = .invalid e.2)) rfl fun k => by rw [Nat.zero_add,Nat.zero_add]
  have hkey : (f.withInvalid e).key = f.key := rfl
  have hdefault : (f.withInvalid e).default = f.default := rfl
  exact resolve_among_silent hkey hdefault hinvalid hscattered hw

/-- Invalid rules are put in one after another, each among those already there. -/
theorem resolve_withInvalids (f : Feature ν) (es : List Insertion) (s : Setting σ) (a : Value)
    {w w' : World σ} (hw : w.Agrees w') :
    Alike ((f.resolve s a w).1.map (Decision.move (shiftedByAll (es.map (·.1)))),
      (f.resolve s a w).2) ((f.withInvalids es).resolve s a w') := by
  induction es generalizing f with
  | nil =>
    exact resolve_among_silent (P := fun _ => False) rfl rfl (fun _ h => h.elim)
      (.refl f.rules fun _ => rfl) hw
  | cons e es ih =>
    obtain ⟨hsame,hagree⟩ := f.resolve_withInvalid e s a (.refl w)
    obtain ⟨hrest,hagreeRest⟩ := ih (f.withInvalid e)
    dsimp only at hsame hagree hrest hagreeRest
    refine ⟨?_,hagree.trans hagreeRest⟩
    rw [← hsame] at hrest
    rw [List.map_cons,shiftedByAll_cons]
    refine Eq.trans ?_ hrest
    rcases (f.resolve s a w).1 with fault | d
    · rfl
    · exact congrArg Except.ok (d.move_move _ _).symm

end Feature

namespace Catalog

/-- The catalog with invalid rules put in, into each feature those that are given for its key. -/
def withInvalids (c : Catalog ν) (ins : String → List Insertion) : Catalog ν :=
  ⟨c.features.map fun f => f.withInvalids (ins f.key)⟩

omit [Fraction ν] in
theorem get?_withInvalids (c : Catalog ν) (ins : String → List Insertion) (key : String) :
    (c.withInvalids ins).get? key = (c.get? key).map (·.withInvalids (ins key)) := by
  obtain ⟨fs⟩ := c
  simp only [get?,withInvalids]
  induction fs with
  | nil => rfl
  | cons f fs ih =>
    rw [List.map_cons,List.find?_cons,List.find?_cons,Feature.key_withInvalids]
    cases hkey : f.key == key with
    | false => exact ih
    | true =>
      rw [beq_iff_eq.mp hkey]
      rfl

theorem evaluate_withInvalids (c : Catalog ν) (ins : String → List Insertion) (s : Setting σ)
    (tracker? : Option Tracker) (key : String) (a : Value) (w : World σ) :
    Alike ((c.evaluate s tracker? key a w).1.map
        (Decision.move (shiftedByAll ((ins key).map (·.1)))),
      (c.evaluate s tracker? key a w).2) ((c.withInvalids ins).evaluate s tracker? key a w) := by
  have hget := c.get?_withInvalids ins key
  cases hf : c.get? key with
  | none =>
    rw [hf] at hget
    rw [evaluate_of_unknown hf,evaluate_of_unknown hget]
    exact ⟨rfl,.refl _⟩
  | some f =>
    rw [hf] at hget
    obtain ⟨x,v,v',hr,hr',hv⟩ := (f.resolve_withInvalids (ins key) s a (.refl w)).split
    obtain ⟨rfl,rfl⟩ := Prod.mk.inj hr
    rcases hd : f.resolve s a w with ⟨fault | d,v⟩ <;> rw [hd] at hr' hv
    · simp only [evaluate,hf,hget,Option.map_some,hd,hr']
      exact ⟨rfl,hv⟩
    · simp only [evaluate,hf,hget,Option.map_some,hd,hr']
      exact ⟨rfl,d.exposure?_move _ ▸ report_agrees rfl _ hv⟩

/-- A feature into which nothing is put is evaluated as it was, notes included. -/
theorem evaluate_withInvalids_of_nil (c : Catalog ν) {ins : String → List Insertion} {key : String}
    (h : ins key = []) (s : Setting σ) (tracker? : Option Tracker) (a : Value) (w : World σ) :
    (c.withInvalids ins).evaluate s tracker? key a w = c.evaluate s tracker? key a w := by
  have hsame : (c.withInvalids ins).get? key = c.get? key := by
    rw [get?_withInvalids,h]
    cases c.get? key <;> rfl
  unfold evaluate
  rw [hsame]

end Catalog

/-! From the raw rules on. -/

/-- The raw rule is read as an invalid rule that shows the reason, at the same place. -/
def Invalidates (limit : Int) (key : String) (p : Nat × Value) (e : Insertion) : Prop :=
  p.1 = e.1 ∧ (Rule.compile p.2 key limit).1 = .ok (.invalid e.2)

theorem Rule.compileAll_insertedAt {key : String} {limit : Int} {v : Value} {r : Rule Float}
    (h : (compile v key limit).1 = .ok r) (p : Nat) (vs : List Value) :
    (compileAll key limit (FlagEngine.insertedAt p v vs)).1 =
      (compileAll key limit vs).1.map (FlagEngine.insertedAt p r) := by
  have hfirst : ∀ us : List Value,
      (compileAll key limit (v :: us)).1 = (compileAll key limit us).1.map (r :: ·) := by
    intro us
    simp only [compileAll]
    rcases hv : compile v key limit with ⟨x,notes⟩
    rw [hv] at h
    obtain rfl : x = .ok r := h
    rfl
  induction p generalizing vs with
  | zero => exact hfirst vs
  | succ p ih =>
    cases vs with
    | nil =>
      rw [insertedAt_nil,hfirst]
      rfl
    | cons u us =>
      rw [insertedAt_succ_cons]
      simp only [compileAll]
      rcases compile u key limit with ⟨fault | x,notes⟩
      · rfl
      · dsimp only
        rw [ih us]
        rcases (compileAll key limit us).1 with fault | rs <;> rfl

namespace RawFeature

/-- The raw feature with a raw rule put in at a place. -/
def withRule (raw : RawFeature) (p : Nat × Value) : RawFeature :=
  { raw with rules := some (insertedAt p.1 p.2 (raw.rules.getD [])) }

def withRules (raw : RawFeature) (ps : List (Nat × Value)) : RawFeature := ps.foldl withRule raw

end RawFeature

namespace Feature

theorem compile_withRule {key : String} {limit : Int} {p : Nat × Value} {e : Insertion}
    (h : Invalidates limit key p e) (raw : RawFeature) :
    (compile key (raw.withRule p) limit).1 = (compile key raw limit).1.map (·.withInvalid e) := by
  obtain ⟨p,v⟩ := p
  obtain ⟨q,reason⟩ := e
  obtain ⟨rfl,hv⟩ : p = q ∧ (Rule.compile v key limit).1 = .ok (.invalid reason) := h
  have hrules := Rule.compileAll_insertedAt hv p (raw.rules.getD [])
  unfold compile
  simp only [RawFeature.withRule,Option.getD_some]
  rcases hnew : Rule.compileAll key limit (insertedAt p v (raw.rules.getD [])) with ⟨x,notes⟩
  rcases hold : Rule.compileAll key limit (raw.rules.getD []) with ⟨y,more⟩
  rw [hnew,hold] at hrules
  obtain rfl : x = y.map (insertedAt p (.invalid reason)) := hrules
  rcases y with fault | rs <;> rfl

theorem compile_withRules {key : String} {limit : Int} {ps : List (Nat × Value)}
    {es : List Insertion} (h : List.Forall₂ (Invalidates limit key) ps es) (raw : RawFeature) :
    (compile key (raw.withRules ps) limit).1 =
      (compile key raw limit).1.map (·.withInvalids es) := by
  induction h generalizing raw with
  | nil =>
    show (compile key raw limit).1 = _
    rcases (compile key raw limit).1 with fault | f <;> rfl
  | cons hpe _ ih =>
    refine (ih (raw.withRule _)).trans ?_
    rw [compile_withRule hpe raw]
    rcases (compile key raw limit).1 with fault | f <;> rfl

end Feature

namespace Catalog

/-- The raw features with raw rules put in, into each those that are given for its key. -/
def withRawRules (raws : List (String × RawFeature)) (ps : String → List (Nat × Value)) :
    List (String × RawFeature) :=
  raws.map fun e => (e.1,e.2.withRules (ps e.1))

variable {limit : Int} {ps : String → List (Nat × Value)} {ins : String → List Insertion}

theorem key_of_compile {key : String} {raw : RawFeature} {f : Feature Float}
    (h : (Feature.compile key raw limit).1 = .ok f) : f.key = key := by
  unfold Feature.compile at h
  rcases hrules : Rule.compileAll key limit (raw.rules.getD []) with ⟨fault | rs,notes⟩ <;>
    rw [hrules] at h
  · cases h
  · rw [← Except.ok.inj h]

theorem compileAll_withRawRules
    (h : ∀ key, List.Forall₂ (Invalidates limit key) (ps key) (ins key))
    (raws : List (String × RawFeature)) :
    (compileAll limit (withRawRules raws ps)).1 =
      (compileAll limit raws).1.map (List.map fun f => f.withInvalids (ins f.key)) := by
  induction raws with
  | nil => rfl
  | cons e raws ih =>
    obtain ⟨key,raw⟩ := e
    have hfeature := Feature.compile_withRules (h key) raw
    simp only [withRawRules,List.map_cons,compileAll] at ih ⊢
    rcases hnew : Feature.compile key (raw.withRules (ps key)) limit with ⟨x,notes⟩
    rcases hold : Feature.compile key raw limit with ⟨y,more⟩
    rw [hnew,hold] at hfeature
    obtain rfl : x = y.map (·.withInvalids (ins key)) := hfeature
    rcases y with fault | f
    · rfl
    · have hkey := key_of_compile (f := f) (by rw [hold])
      simp only [Except.map,ih]
      rcases (compileAll limit raws).1 with fault | fs
      · rfl
      · simp only [List.map_cons,hkey]

theorem compile_withRawRules
    (h : ∀ key, List.Forall₂ (Invalidates limit key) (ps key) (ins key))
    (raws : List (String × RawFeature)) :
    (compile limit (withRawRules raws ps)).1 =
      (compile limit raws).1.map (·.withInvalids ins) := by
  have hall := compileAll_withRawRules h raws
  unfold compile
  rcases hnew : compileAll limit (withRawRules raws ps) with ⟨x,notes⟩
  rcases hold : compileAll limit raws with ⟨y,more⟩
  rw [hnew,hold] at hall
  obtain rfl : x = y.map (List.map fun f => f.withInvalids (ins f.key)) := hall
  rcases y with fault | fs <;> rfl

end Catalog

/-- With invalid rules put in, any number of them into any features at any places, a catalog gives
the decisions that it gave, but that the rule which decides has moved; it makes the same calls on
the store and reports the same exposures. A feature into which nothing is put is evaluated as it
was. Raw rules that are read as invalid ones come to just that. -/
theorem invalid_rules_are_as_good_as_absent (c : Catalog ν) (ins : String → List Insertion)
    (s : Setting σ) (tracker? : Option Tracker) (key : String) (a : Value) (w : World σ) :
    ((c.withInvalids ins).evaluate s tracker? key a w).1 =
        (c.evaluate s tracker? key a w).1.map
          (Decision.move (shiftedByAll ((ins key).map (·.1)))) ∧
      (c.withInvalids ins).storeCalls s tracker? key a w = c.storeCalls s tracker? key a w ∧
      ((c.withInvalids ins).evaluate s tracker? key a w).2.store =
        (c.evaluate s tracker? key a w).2.store ∧
      ((c.withInvalids ins).evaluate s tracker? key a w).2.exposures =
        (c.evaluate s tracker? key a w).2.exposures ∧
      (ins key = [] →
        (c.withInvalids ins).evaluate s tracker? key a w = c.evaluate s tracker? key a w) ∧
      (∀ (f : Feature ν) (es : List Insertion),
        ((f.withInvalids es).resolve s a w).1 =
            (f.resolve s a w).1.map (Decision.move (shiftedByAll (es.map (·.1)))) ∧
          (f.withInvalids es).storeCalls s a w = f.storeCalls s a w) ∧
      ∀ (limit : Int) (raws : List (String × RawFeature)) (ps : String → List (Nat × Value)),
        (∀ k, List.Forall₂ (Invalidates limit k) (ps k) (ins k)) →
        (Catalog.compile limit (Catalog.withRawRules raws ps)).1 =
          (Catalog.compile limit raws).1.map (·.withInvalids ins) := by
  obtain ⟨hsame,hagree⟩ := c.evaluate_withInvalids ins s tracker? key a w
  have hcalls := (c.evaluate_withInvalids ins s.recorded tracker? key a w.recording).2
  refine ⟨hsame.symm,congrArg Prod.snd hcalls.store.symm,hagree.store.symm,hagree.exposures.symm,
    fun h => c.evaluate_withInvalids_of_nil h s tracker? a w,fun f es => ⟨?_,?_⟩,?_⟩
  · exact (f.resolve_withInvalids es s a (.refl w)).1.symm
  · have hrecorded := (f.resolve_withInvalids es s.recorded a (.refl w.recording)).2
    exact congrArg Prod.snd hrecorded.store.symm
  · intro limit raws ps h
    exact Catalog.compile_withRawRules h raws

/-- A number and an empty rule are put before the rule that decides. -/
theorem forcing_rule_decides_behind_invalid_ones :
    let raws : List (String × RawFeature) :=
      [("banner",⟨.null,some [.obj [("force",.str "shown")]]⟩),("footer",⟨.bool true,none⟩)]
    let ps : String → List (Nat × Value) := fun k =>
      if k = "banner" then [(0,.int 3),(1,.obj [])] else []
    let ins : String → List Insertion := fun k =>
      if k = "banner" then [(0,Rule.notAnObject),(1,Rule.nothingToDo)] else []
    let s : Setting Memory := ⟨some Memory.store,.default⟩
    let w : World Memory := ⟨[],[],[]⟩
    ∃ c : Catalog Float, (Catalog.compile 64 raws).1 = .ok c ∧
      (Catalog.compile 64 (Catalog.withRawRules raws ps)).1 = .ok (c.withInvalids ins) ∧
      (c.evaluate s none "banner" .null w).1 = .ok ⟨"banner",.force 0 (.str "shown")⟩ ∧
      ((c.withInvalids ins).evaluate s none "banner" .null w).1 =
        .ok ⟨"banner",.force 2 (.str "shown")⟩ ∧
      (c.withInvalids ins).evaluate s none "footer" .null w =
        c.evaluate s none "footer" .null w := by
  intro raws ps ins s w
  let c : Catalog Float :=
    ⟨[⟨"banner",.null,[.when none (.force (.str "shown") [])]⟩,⟨"footer",.bool true,[]⟩]⟩
  have hcompile : (Catalog.compile 64 raws).1 = .ok c := rfl
  have hinvalid : ∀ k, List.Forall₂ (Invalidates 64 k) (ps k) (ins k) := by
    intro k
    by_cases hk : k = "banner"
    · simp only [ps,ins,if_pos hk]
      exact .cons ⟨rfl,rfl⟩ (.cons ⟨rfl,rfl⟩ .nil)
    · simp only [ps,ins,if_neg hk]
      exact .nil
  obtain ⟨hbanner,-,-,-,-,-,hraw⟩ :=
    invalid_rules_are_as_good_as_absent c ins s none "banner" .null w
  obtain ⟨-,-,-,-,hfooter,-,-⟩ :=
    invalid_rules_are_as_good_as_absent c ins s none "footer" .null w
  refine ⟨c,hcompile,?_,rfl,hbanner,hfooter rfl⟩
  rw [hraw 64 raws ps hinvalid,hcompile]
  rfl

end FlagEngine
