import FlagEngine.Condition.Reader
import FlagEngine.Proofs.Stumbling
import Mathlib.Data.List.Forall2
import Mathlib.Tactic.Common

/-! Conditions on what is not there. Of a missing field only a test for absence holds; so a field
test read from a document holds of attributes that lack the field just when its document asks for
absence and for nothing else, which the empty mapping does too: no operator of it fails. -/
namespace FlagEngine

/-- The path leads nowhere: at some segment there is no mapping, or one without that key. -/
inductive Value.Lacks : Value → List String → Prop
  | noMapping {v : Value} {name : String} {path : List String} (h : v.isMap = false) :
      v.Lacks (name :: path)
  | noKey {es : Entries} {name : String} {path : List String} (h : es.find? (.str name) = none) :
      (Value.map es).Lacks (name :: path)
  | deeper {es : Entries} {w : Value} {name : String} {path : List String}
      (h : es.find? (.str name) = some w) (hw : w.Lacks path) : (Value.map es).Lacks (name :: path)

theorem Value.Lacks.lookup {v : Value} {path : List String} (h : v.Lacks path) :
    v.lookup path = none := by
  induction h with
  | @noMapping v name path h => cases v <;> first | rfl | contradiction
  | noKey h => simp [Value.lookup,field?,h]
  | deeper h hw ih => simp [Value.lookup,field?,h,ih]

theorem Value.lookup_eq_none_iff {v : Value} {path : List String} :
    v.lookup path = none ↔ v.Lacks path := by
  refine ⟨fun h => ?_,Lacks.lookup⟩
  induction path generalizing v with
  | nil => simp at h
  | cons name path ih =>
    cases v with
    | map es =>
      cases hw : Entries.find? es (.str name) with
      | none => exact .noKey hw
      | some w =>
        have hrest : w.lookup path = none := by simpa [Value.lookup,field?,hw] using h
        exact .deeper hw (ih hrest)
    | _ => exact .noMapping rfl

/-- A mapping of operators that is not empty, each a test for absence. -/
def Value.AsksAbsence (v : Value) : Prop :=
  ∃ es, v = .map es ∧ es ≠ [] ∧ ∀ e ∈ es, e.1 = .str "$exists" ∧ e.2.truthy = false

theorem Operator.holds_none_iff (o : Operator) : o.holds none = true ↔ o = .present false := by
  cases o with
  | present wanted => cases wanted <;> simp [Operator.holds]
  | _ => simp [Operator.holds]

theorem Operator.allHold_none_iff (os : List Operator) :
    Operator.allHold os none = true ↔ ∀ o ∈ os, o = .present false := by
  induction os with
  | nil => simp [Operator.allHold]
  | cons o os ih => simp [Operator.allHold,Operator.holds_none_iff,ih]

namespace Condition

/-- The segments of a field's path. -/
def pathOf (p : String) : List String :=
  String.ofList (segments p.toList).1 :: (segments p.toList).2.map String.ofList

theorem exists_of_map_eq_ok {α β ε : Type} {f : α → β} {r : Except ε α} {y : β}
    (h : r.map f = .ok y) : ∃ x, r = .ok x ∧ f x = y := by
  cases r with
  | error e => cases h
  | ok x => exact ⟨x,rfl,Except.ok.inj h⟩

theorem forall₂_of_collect {α β : Type} {f : α → Except ConditionFailure β}
    {refused : β → List String} {xs : List α} {ys : List β} (h : collect f refused xs = .ok ys) :
    List.Forall₂ (fun x y => f x = .ok y) xs ys := by
  induction xs generalizing ys with
  | nil =>
    obtain rfl := Except.ok.inj h
    exact .nil
  | cons x xs ih =>
    unfold collect at h
    cases hx : f x with
    | error e => simp [hx] at h
    | ok y =>
      cases hxs : collect f refused xs with
      | error e => simp [hx,hxs] at h
      | ok ys' =>
        obtain rfl : y :: ys' = ys := by simpa [hx,hxs] using h
        exact .cons hx (ih hxs)

theorem name_of_orderTest? {name : String} {o : OrderTest} (h : orderTest? name = some o) :
    o.name = name := by
  unfold orderTest? at h
  split at h <;> cases h <;> rfl

theorem name_of_versionRelation? {name : String} {r : VersionRelation}
    (h : versionRelation? name = some r) : r.name = name := by
  unfold versionRelation? at h
  split at h <;> cases h <;> rfl

theorem name_of_readPattern {text : String} {o : Operator} (h : readPattern text = .ok o) :
    o.name = "$regex" := by
  unfold readPattern at h
  split at h <;> cases h <;> rfl

theorem name_of_readVersion {r : VersionRelation} {v : Value} {o : Operator}
    (h : readVersion r v = .ok o) : o.name = r.name := by
  unfold readVersion at h
  split at h <;> cases h
  rfl

theorem name_of_readPlain {name : String} {v : Value} {o : Operator}
    (h : readPlain name v = .ok o) : o.name = name := by
  unfold readPlain at h
  split at h <;> try (cases h; rfl)
  · split at h
    · exact name_of_readPattern h
    · cases h
  · split at h
    · rename_i hr
      cases h
      exact name_of_orderTest? hr
    · split at h
      · rename_i hr
        exact (name_of_readVersion h).trans (name_of_versionRelation? hr)
      · cases h

/-- An operator is read from the entry under its name. -/
theorem key_of_readEntry {limit : Int} {room : Nat} {e : Scalar × Value} {o : Operator}
    (h : readEntry limit room e = .ok o) : e.1 = .str o.name := by
  obtain ⟨key,v⟩ := e
  cases room with
  | zero => simp [readEntry] at h
  | succ room =>
    unfold readEntry at h
    split at h
    · obtain ⟨t,-,rfl⟩ := exists_of_map_eq_ok h; rfl
    · obtain ⟨t,-,rfl⟩ := exists_of_map_eq_ok h; rfl
    · split at h
      · obtain ⟨ts,-,rfl⟩ := exists_of_map_eq_ok h; rfl
      · cases h; rfl
    · split at h
      · obtain ⟨t,-,rfl⟩ := exists_of_map_eq_ok h; rfl
      · obtain ⟨c,-,rfl⟩ := exists_of_map_eq_ok h; rfl
    · rw [name_of_readPlain h]
    · cases h

theorem readEntry_exists {limit : Int} {room : Nat} {v : Value} {o : Operator}
    (h : readEntry limit room (.str "$exists",v) = .ok o) : o = .present v.truthy := by
  cases room with
  | zero => simp [readEntry] at h
  | succ room => exact (Except.ok.inj h).symm

theorem readEntry_absence_iff {limit : Int} {room : Nat} {e : Scalar × Value} {o : Operator}
    (h : readEntry limit room e = .ok o) :
    o = .present false ↔ e.1 = .str "$exists" ∧ e.2.truthy = false := by
  obtain ⟨key,v⟩ := e
  constructor
  · rintro rfl
    obtain rfl : key = .str "$exists" := key_of_readEntry h
    exact ⟨rfl,(Operator.present.inj (readEntry_exists h)).symm⟩
  · rintro ⟨rfl,hv⟩
    rw [readEntry_exists h,show v.truthy = false from hv]

theorem absences_of_entries {limit : Int} {room : Nat} {es : Entries} {os : List Operator}
    (h : List.Forall₂ (fun e o => readEntry limit room e = .ok o) es os) :
    (∀ o ∈ os, o = .present false) ↔ ∀ e ∈ es, e.1 = .str "$exists" ∧ e.2.truthy = false := by
  induction h with
  | nil => simp
  | cons h _ ih => rw [List.forall_mem_cons,List.forall_mem_cons,readEntry_absence_iff h,ih]

/-- A test holds of nothing just when all its entries ask for absence, if it has entries at all. -/
theorem readTest_holds_none_iff {limit : Int} {room : Nat} {v : Value} {t : ValueTest}
    (h : readTest limit room v = .ok t) :
    t.holds none = true ↔ v = .map [] ∨ v.AsksAbsence := by
  cases room with
  | zero => simp [readTest] at h
  | succ room =>
    unfold readTest at h
    split at h
    · rename_i es
      split at h
      · obtain ⟨os,hos,rfl⟩ := exists_of_map_eq_ok h
        have hall := absences_of_entries (forall₂_of_collect hos)
        rw [ValueTest.holds,Operator.allHold_none_iff,hall]
        constructor
        · intro hes
          by_cases hnil : es = []
          · exact .inl (congrArg Value.map hnil)
          · exact .inr ⟨es,rfl,hnil,hes⟩
        · rintro (h | ⟨es',h,-,hes⟩) <;> cases h
          · simp
          · exact hes
      · rename_i hno
        cases h
        refine iff_of_false (by simp [ValueTest.holds]) ?_
        rintro (h | ⟨es',h,-,hes⟩) <;> cases h
        · exact hno rfl
        · refine hno (List.all_eq_true.mpr fun e he => ?_)
          rw [(hes e he).1]
          rfl
    · rename_i hno
      cases h
      refine iff_of_false (by simp [ValueTest.holds]) ?_
      rintro (h | ⟨es',h,-⟩) <;> exact hno _ h

theorem readField_eq_ok {f : Value → Except ConditionFailure ValueTest} {p : String} {v : Value}
    {c : Condition} (h : readField f (.str p,v) = .ok c) :
    ∃ name path t, pathOf p = name :: path ∧ f v = .ok t ∧ c = .field name path t := by
  unfold readField at h
  dsimp only at h
  split at h
  · cases h
  · split at h
    · cases h
    · obtain ⟨t,ht,rfl⟩ := exists_of_map_eq_ok h
      exact ⟨_,_,t,rfl,ht,rfl⟩

/-- A document with one entry that is no combinator is read as a test of one field. -/
theorem read_singleton_eq_ok {p : String} (hp : isOperatorName p = false) {v : Value} {limit : Int}
    {c : Condition} (h : read (.map [(.str p,v)]) limit = .ok c) :
    ∃ name path t room, pathOf p = name :: path ∧ readTest limit room v = .ok t ∧
      c = .allOf [.field name path t] := by
  have hfind : ∀ key : String, isOperatorName key = true →
      Entries.find? [(.str p,v)] (.str key) = none := by
    intro key hkey
    have hne : p ≠ key := by
      rintro rfl
      simp [hp] at hkey
    simp [Entries.find?,hne]
  unfold read at h
  cases hroom : (limit + 1).toNat with
  | zero => simp [hroom,readDocument] at h
  | succ room =>
    rw [hroom,readDocument] at h
    simp only [hfind "$or" rfl,hfind "$nor" rfl,hfind "$and" rfl,hfind "$not" rfl] at h
    obtain ⟨cs,hcs,rfl⟩ := exists_of_map_eq_ok h
    obtain ⟨c,cs',hfield,hnil,rfl⟩ := List.forall₂_cons_left_iff.mp (forall₂_of_collect hcs)
    obtain rfl := List.forall₂_nil_left_iff.mp hnil
    obtain ⟨name,path,t,hpath,ht,rfl⟩ := readField_eq_ok hfield
    exact ⟨name,path,t,room,hpath,ht,rfl⟩

end Condition

open Condition

/-- A condition on a single field, put to attributes that lack the field, has an answer, and holds
just when its document asks for absence and nothing else, or is the empty mapping, which asks for
nothing. -/
theorem missing_field_meets_absence_only {p : String} (hp : isOperatorName p = false) {v : Value}
    {limit : Int} {c : Condition} (hread : read (.map [(.str p,v)]) limit = .ok c) {a : Value}
    (ha : a.Lacks (pathOf p)) :
    c.test a = .ok (c.holds a) ∧ (c.holds a = true ↔ v = .map [] ∨ v.AsksAbsence) := by
  obtain ⟨name,path,t,room,hpath,ht,rfl⟩ := read_singleton_eq_ok hp hread
  have hlookup : a.lookup (name :: path) = none := hpath ▸ Value.lookup_eq_none_iff.mpr ha
  have hsteady : t.stumbles none = false := t.stumbles_of_writable nofun
  rw [test_eq_ok_iff,← readTest_holds_none_iff ht]
  simp [Condition.holds,Condition.allHold,Condition.stumbles,Condition.allStumble,hlookup,hsteady]

theorem missing_nested_field_meets_absence :
    read (.map [(.str "user.age",.map [(.str "$exists",.bool false)])]) 64 =
        .ok (.allOf [.field "user" ["age"] (.operators [.present false])]) ∧
      (Condition.allOf [.field "user" ["age"] (.operators [.present false])]).holds
        (.map [(.str "user",.int 3)]) = true := by
  have hread : read (.map [(.str "user.age",.map [(.str "$exists",.bool false)])]) 64 =
      .ok (.allOf [.field "user" ["age"] (.operators [.present false])]) := rfl
  have hlacks : (Value.map [(.str "user",.int 3)]).Lacks (pathOf "user.age") :=
    .deeper rfl (.noMapping rfl)
  refine ⟨hread,(missing_field_meets_absence_only rfl hread hlacks).2.mpr (.inr ⟨_,rfl,?_,?_⟩)⟩
  · simp
  · simp [Value.truthy,Scalar.truthy]

/-- The empty mapping counts as operators, of which none fails. -/
theorem missing_field_meets_empty_mapping :
    ∃ c, read (.map [(.str "age",.map [])]) 64 = .ok c ∧ (Value.map []).Lacks (pathOf "age") ∧
      ¬ (Value.map []).AsksAbsence ∧ c.holds (.map []) = true := by
  refine ⟨_,rfl,.noKey rfl,?_,rfl⟩
  rintro ⟨es,h,hne,-⟩
  cases h
  exact hne rfl

end FlagEngine
