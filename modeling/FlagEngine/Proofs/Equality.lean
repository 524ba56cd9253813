import FlagEngine.Value.Order
import FlagEngine.Proofs.DoublePlace
import Mathlib.Data.List.Forall2
import Mathlib.Data.List.Perm.Subperm
import Mathlib.Data.List.Nodup
import Mathlib.Tactic.Common

/-! Equality of values. A scalar has a face, by which it is told apart as a key; equal mappings and
sets have the same faces, in any order. Among proper values, which hold no key twice, equality is
symmetric and transitive, and goes through to the parts. -/
namespace FlagEngine

/-- What is seen of a scalar that is a key: numbers and truth values by their place. -/
inductive Face
  | null
  | number (p : Extended)
  | str (s : String)
  | bytes (bs : List UInt8)
  | date (d : Date)
  | moment (aware : Bool) (instant : Int)
  deriving DecidableEq

namespace Scalar

def face : Scalar → Face
  | .null => .null
  | .bool b => .number (.ofInt (if b then 1 else 0))
  | .int n => .number (.ofInt n)
  | .float x => .number (.ofFloat x)
  | .str s => .str s
  | .bytes bs => .bytes bs
  | .date d => .date d
  | .moment t => .moment t.offset.isSome t.instant

theorem same_iff (a b : Scalar) :
    a.same b = true ↔ a.face = b.face ∧ a.face ≠ .number .nan := by
  cases a <;> cases b <;>
    simp [same,place?,face,Extended.same_iff,Moment.same,Extended.ofInt]

theorem same_comm (a b : Scalar) : a.same b = b.same a := by
  rw [Bool.eq_iff_iff,same_iff,same_iff]
  constructor <;> rintro ⟨h,hn⟩ <;> exact ⟨h.symm,h ▸ hn⟩

theorem sameKey_iff (a b : Scalar) : a.sameKey b = true ↔ a.face = b.face := by
  have hplace : ∀ c : Scalar, c.place? = some .nan ↔ c.face = .number .nan := by
    intro c
    cases c <;> simp [place?,face,Extended.ofInt]
  simp only [sameKey,Bool.or_eq_true,Bool.and_eq_true,beq_iff_eq,same_iff,hplace]
  constructor
  · rintro (⟨h,-⟩ | ⟨ha,hb⟩)
    · exact h
    · exact ha.trans hb.symm
  · intro h
    by_cases ha : a.face = .number .nan
    · exact .inr ⟨ha,h ▸ ha⟩
    · exact .inl ⟨h,ha⟩

@[simp] theorem sameKey_self (a : Scalar) : a.sameKey a = true := (sameKey_iff a a).mpr rfl

theorem sameKey_comm (a b : Scalar) : a.sameKey b = b.sameKey a := by
  rw [Bool.eq_iff_iff,sameKey_iff,sameKey_iff]
  exact eq_comm

theorem sameKey_trans {a b c : Scalar} (h : a.sameKey b = true) (h' : b.sameKey c = true) :
    a.sameKey c = true :=
  (sameKey_iff a c).mpr (((sameKey_iff a b).mp h).trans ((sameKey_iff b c).mp h'))

theorem alike_iff (a b : Scalar) :
    a.alike b = true ↔ a.isBool = b.isBool ∧ a.face = b.face ∧ a.face ≠ .number .nan := by
  simp [alike,same_iff]

theorem alike_comm (a b : Scalar) : a.alike b = b.alike a := by
  simp only [alike,same_comm a b,Bool.beq_comm]

/-- Two ways to hold one scalar that is a value, where a truth value is no number. -/
inductive Respelled : Scalar → Scalar → Prop
  | refl (a : Scalar) : Respelled a a
  | intFloat {n : Int} {x : Float} (h : Extended.ofFloat x = .ofInt n) : Respelled (.int n) (.float x)
  | floatInt {x : Float} {n : Int} (h : Extended.ofFloat x = .ofInt n) : Respelled (.float x) (.int n)
  | floats {x y : Float} (h : (Extended.ofFloat x).same (.ofFloat y) = true) :
      Respelled (.float x) (.float y)
  | moments (s t : Moment) : Respelled (.moment s) (.moment t)

theorem respelled_of_alike {a b : Scalar} (h : a.alike b = true) : a.Respelled b := by
  obtain ⟨hbool,hface,hn⟩ := (alike_iff a b).mp h
  cases a <;> cases b <;> simp only [face,reduceCtorEq,Face.number.injEq,Face.str.injEq,
    Face.bytes.injEq,Face.date.injEq] at hface
  case bool.bool p q =>
    have hpq : p = q := by cases p <;> cases q <;> simp [Extended.ofInt] at hface ⊢
    exact hpq ▸ .refl _
  case int.int m n =>
    have hmn : m = n := by simpa [Extended.ofInt] using hface
    exact hmn ▸ .refl _
  case int.float => exact .intFloat hface.symm
  case float.int => exact .floatInt hface
  case float.float =>
    exact .floats (Extended.same_iff.mpr ⟨hface,fun hnan => hn (congrArg Face.number hnan)⟩)
  case moment.moment => exact .moments _ _
  case null.null => exact .refl _
  case str.str => exact hface ▸ .refl _
  case bytes.bytes => exact hface ▸ .refl _
  case date.date => exact hface ▸ .refl _
  all_goals simp [isBool] at hbool

/-- No two of the scalars are the same key. -/
def Distinct (ks : List Scalar) : Prop := ks.Pairwise fun k l => k.sameKey l = false

theorem distinct_iff_nodup {ks : List Scalar} : Distinct ks ↔ (ks.map face).Nodup := by
  rw [Distinct,List.Nodup,List.pairwise_map]
  simp only [← Bool.not_eq_true,sameKey_iff,ne_eq]

/-- As many keys as there are distinct keys among them: then there are no others. -/
theorem matched_back {ks ls : List Scalar} (h : Distinct ks) (hlen : ks.length = ls.length)
    (hsub : ∀ k ∈ ks, ∃ l ∈ ls, k.sameKey l = true) :
    Distinct ls ∧ ∀ l ∈ ls, ∃ k ∈ ks, l.sameKey k = true := by
  have hsubset : ks.map face ⊆ ls.map face := by
    intro f hf
    obtain ⟨k,hk,rfl⟩ := List.mem_map.mp hf
    obtain ⟨l,hl,hkl⟩ := hsub k hk
    exact (sameKey_iff k l).mp hkl ▸ List.mem_map_of_mem hl
  -- Distinct faces, all found among as many others: these are no more than they.
  have hperm : (ks.map face).Perm (ls.map face) :=
    ((distinct_iff_nodup.mp h).subperm hsubset).perm_of_length_le (by simp [hlen])
  refine ⟨distinct_iff_nodup.mpr (hperm.nodup_iff.mp (distinct_iff_nodup.mp h)),fun l hl => ?_⟩
  obtain ⟨k,hk,heq⟩ := List.mem_map.mp (hperm.symm.subset (List.mem_map_of_mem hl))
  exact ⟨k,hk,(sameKey_iff l k).mpr heq.symm⟩

end Scalar

namespace Entries

theorem find?_congr {k l : Scalar} (h : k.sameKey l = true) (es : Entries) :
    es.find? k = es.find? l := by
  have hkey : ∀ a : Scalar, a.sameKey k = a.sameKey l := fun a => Bool.eq_iff_iff.mpr
    ⟨fun ha => Scalar.sameKey_trans ha h,
      fun ha => Scalar.sameKey_trans ha (Scalar.sameKey_comm k l ▸ h)⟩
  induction es with
  | nil => rfl
  | cons e es ih => simp only [find?,hkey,ih]

theorem exists_of_find? {es : Entries} {k : Scalar} {v : Value} (h : es.find? k = some v) :
    ∃ e ∈ es, e.1.sameKey k = true ∧ e.2 = v := by
  induction es with
  | nil => simp at h
  | cons e es ih =>
    unfold find? at h
    split at h
    · exact ⟨e,List.mem_cons_self,‹_›,Option.some.inj h⟩
    · obtain ⟨d,hd,hk⟩ := ih h
      exact ⟨d,List.mem_cons_of_mem _ hd,hk⟩

theorem find?_of_mem {es : Entries} (hes : Scalar.Distinct (es.map (·.1))) {e : Scalar × Value}
    (he : e ∈ es) {k : Scalar} (hk : e.1.sameKey k = true) : es.find? k = some e.2 := by
  induction es with
  | nil => simp at he
  | cons d es ih =>
    obtain ⟨hd,hrest⟩ := List.pairwise_cons.mp hes
    unfold find?
    rcases List.mem_cons.mp he with rfl | he
    · rw [if_pos hk]
    · have hde : d.1.sameKey e.1 = false := hd e.1 (List.mem_map_of_mem he)
      have hdk : ¬ d.1.sameKey k = true := by
        intro hdk
        rw [Scalar.sameKey_trans hdk (Scalar.sameKey_comm e.1 k ▸ hk)] at hde
        contradiction
      rw [if_neg hdk]
      exact ih hrest he

end Entries

section Pairing

variable {α β γ : Type} {R : α → β → Prop} {xs : List α} {ys : List β}

theorem forall₂_imp_of_mem {S : α → β → Prop} (h : List.Forall₂ R xs ys)
    (hS : ∀ x ∈ xs, ∀ y, R x y → S x y) : List.Forall₂ S xs ys := by
  induction h with
  | nil => exact .nil
  | cons hxy _ ih =>
    exact .cons (hS _ List.mem_cons_self _ hxy) (ih fun x hx => hS x (List.mem_cons_of_mem _ hx))

theorem forall₂_trans_of_mem {S : β → γ → Prop} {T : α → γ → Prop} {zs : List γ}
    (h : List.Forall₂ R xs ys) (h' : List.Forall₂ S ys zs)
    (hT : ∀ x ∈ xs, ∀ y z, R x y → S y z → T x z) : List.Forall₂ T xs zs := by
  induction h generalizing zs with
  | nil => cases h'; exact .nil
  | cons hxy _ ih =>
    cases h' with
    | cons hyz h' =>
      exact .cons (hT _ List.mem_cons_self _ _ hxy hyz)
        (ih h' fun x hx => hT x (List.mem_cons_of_mem _ hx))

end Pairing

namespace Value

theorem sameItems_iff (strict : Bool) (xs ys : List Value) :
    sameItems strict xs ys = true ↔ List.Forall₂ (fun x y => sameAs strict x y = true) xs ys := by
  induction xs generalizing ys with
  | nil => cases ys <;> simp [sameItems]
  | cons x xs ih => cases ys <;> simp [sameItems,ih]

theorem sameEntries_iff (strict : Bool) (xs ys : Entries) :
    sameEntries strict xs ys = true ↔
      ∀ e ∈ xs, ∃ y, ys.find? e.1 = some y ∧ sameAs strict e.2 y = true := by
  induction xs with
  | nil => simp [sameEntries]
  | cons e xs ih =>
    obtain ⟨k,x⟩ := e
    cases hy : Entries.find? ys k <;> simp [sameEntries,ih,hy]

/-- No mapping and no set within holds a key twice. -/
inductive Proper : Value → Prop
  | scalar (a : Scalar) : Proper (.scalar a)
  | list {xs : List Value} (h : ∀ x ∈ xs, Proper x) : Proper (.list xs)
  | pair {v w : Value} (hv : Proper v) (hw : Proper w) : Proper (.pair v w)
  | set {xs : List Scalar} (hkeys : Scalar.Distinct xs) : Proper (.set xs)
  | map {es : Entries} (hkeys : Scalar.Distinct (es.map (·.1))) (h : ∀ e ∈ es, Proper e.2) :
      Proper (.map es)

/-- Equal mappings hold equal values under the keys of the second too. -/
theorem entries_matched_back {strict : Bool} {xs ys : Entries}
    (hkeys : Scalar.Distinct (xs.map (·.1))) (hlen : xs.length = ys.length)
    (h : ∀ e ∈ xs, ∃ y, ys.find? e.1 = some y ∧ sameAs strict e.2 y = true) :
    Scalar.Distinct (ys.map (·.1)) ∧
      ∀ d ∈ ys, ∃ e ∈ xs, xs.find? d.1 = some e.2 ∧ sameAs strict e.2 d.2 = true := by
  have hsub : ∀ k ∈ xs.map (·.1), ∃ l ∈ ys.map (·.1), k.sameKey l = true := by
    intro k hk
    obtain ⟨e,he,rfl⟩ := List.mem_map.mp hk
    obtain ⟨y,hy,-⟩ := h e he
    obtain ⟨d,hd,hkey,-⟩ := Entries.exists_of_find? hy
    exact ⟨d.1,List.mem_map_of_mem hd,Scalar.sameKey_comm d.1 e.1 ▸ hkey⟩
  obtain ⟨hdistinct,hback⟩ := Scalar.matched_back hkeys (by simp [hlen]) hsub
  refine ⟨hdistinct,fun d hd => ?_⟩
  obtain ⟨k,hk,hdk⟩ := hback d.1 (List.mem_map_of_mem hd)
  obtain ⟨e,he,rfl⟩ := List.mem_map.mp hk
  have hed : e.1.sameKey d.1 = true := Scalar.sameKey_comm d.1 e.1 ▸ hdk
  obtain ⟨y,hy,hsame⟩ := h e he
  obtain rfl : y = d.2 :=
    Option.some.inj (hy.symm.trans (Entries.find?_of_mem hdistinct hd hdk))
  exact ⟨e,he,Entries.find?_of_mem hkeys he hed,hsame⟩

/-- What a proper value equals is proper and equals it. -/
theorem Proper.symm {v : Value} (hv : v.Proper) {strict : Bool} {w : Value}
    (h : sameAs strict v w = true) : w.Proper ∧ sameAs strict w v = true := by
  induction hv generalizing strict w with
  | scalar a =>
    cases w <;> simp only [sameAs,Bool.false_eq_true] at h
    rename_i b
    refine ⟨.scalar b,?_⟩
    rw [sameAs,Scalar.alike_comm b,Scalar.same_comm b]
    exact h
  | @list xs hxs ih =>
    cases w <;> simp only [sameAs,Bool.false_eq_true] at h
    rename_i ys
    rw [sameItems_iff] at h
    have hitems : List.Forall₂ (fun y x => y.Proper ∧ sameAs strict y x = true) ys xs :=
      (forall₂_imp_of_mem h fun x hx y hxy => ih x hx hxy).flip
    obtain ⟨hproper,hback⟩ := (List.forall₂_and_left ys xs).mp hitems
    exact ⟨.list hproper,(sameItems_iff strict ys xs).mpr hback⟩
  | pair _ _ ihv ihw =>
    cases w <;> simp only [sameAs,Bool.false_eq_true] at h
    obtain ⟨ha,hb⟩ := Bool.and_eq_true_iff.mp h
    obtain ⟨hpa,hsa⟩ := ihv ha
    obtain ⟨hpb,hsb⟩ := ihw hb
    exact ⟨.pair hpa hpb,by rw [sameAs,hsa,hsb]; rfl⟩
  | @set xs hkeys =>
    cases w <;> simp only [sameAs,Bool.false_eq_true] at h
    rename_i ys
    obtain ⟨hlen,hall⟩ := Bool.and_eq_true_iff.mp h
    have hlen : xs.length = ys.length := by simpa using hlen
    obtain ⟨hdistinct,hback⟩ := Scalar.matched_back hkeys hlen (by simpa using hall)
    exact ⟨.set hdistinct,by simpa [sameAs,hlen] using hback⟩
  | @map xs hkeys _ ih =>
    cases w <;> simp only [sameAs,Bool.false_eq_true] at h
    rename_i ys
    obtain ⟨hlen,hall⟩ := Bool.and_eq_true_iff.mp h
    have hlen : xs.length = ys.length := by simpa using hlen
    obtain ⟨hdistinct,hback⟩ :=
      entries_matched_back hkeys hlen ((sameEntries_iff strict xs ys).mp hall)
    have hvalues : ∀ d ∈ ys, d.2.Proper ∧
        ∃ x, Entries.find? xs d.1 = some x ∧ sameAs strict d.2 x = true := by
      intro d hd
      obtain ⟨e,he,hfind,hsame⟩ := hback d hd
      obtain ⟨hproper,hsymm⟩ := ih e he hsame
      exact ⟨hproper,e.2,hfind,hsymm⟩
    refine ⟨.map hdistinct fun d hd => (hvalues d hd).1,?_⟩
    simp only [sameAs,hlen,beq_self_eq_true,Bool.true_and]
    exact (sameEntries_iff strict ys xs).mpr fun d hd => (hvalues d hd).2

theorem Proper.trans {u : Value} (hu : u.Proper) {strict : Bool} {v w : Value}
    (h : sameAs strict u v = true) (h' : sameAs strict v w = true) :
    sameAs strict u w = true := by
  induction hu generalizing strict v w with
  | scalar a =>
    cases v <;> simp only [sameAs,Bool.false_eq_true] at h
    cases w <;> simp only [sameAs,Bool.false_eq_true] at h'
    rename_i b c
    rw [sameAs]
    cases strict
    · simp only [Bool.false_eq_true,if_false,Scalar.same_iff] at h h' ⊢
      exact ⟨h.1.trans h'.1,h.2⟩
    · simp only [if_true,Scalar.alike_iff] at h h' ⊢
      exact ⟨h.1.trans h'.1,h.2.1.trans h'.2.1,h.2.2⟩
  | @list xs _ ih =>
    cases v <;> simp only [sameAs,Bool.false_eq_true] at h
    cases w <;> simp only [sameAs,Bool.false_eq_true] at h'
    rename_i ys zs
    rw [sameItems_iff] at h h'
    rw [sameAs,sameItems_iff]
    exact forall₂_trans_of_mem h h' fun x hx y z hxy hyz => ih x hx hxy hyz
  | pair _ _ ihv ihw =>
    cases v <;> simp only [sameAs,Bool.false_eq_true] at h
    cases w <;> simp only [sameAs,Bool.false_eq_true] at h'
    obtain ⟨ha,hb⟩ := Bool.and_eq_true_iff.mp h
    obtain ⟨ha',hb'⟩ := Bool.and_eq_true_iff.mp h'
    rw [sameAs,ihv ha ha',ihw hb hb']
    rfl
  | @set xs _ =>
    cases v <;> simp only [sameAs,Bool.false_eq_true] at h
    cases w <;> simp only [sameAs,Bool.false_eq_true] at h'
    rename_i ys zs
    simp only [Bool.and_eq_true,beq_iff_eq,List.all_eq_true,List.any_eq_true] at h h'
    simp only [sameAs,Bool.and_eq_true,beq_iff_eq,List.all_eq_true,List.any_eq_true]
    refine ⟨h.1.trans h'.1,fun x hx => ?_⟩
    obtain ⟨y,hy,hxy⟩ := h.2 x hx
    obtain ⟨z,hz,hyz⟩ := h'.2 y hy
    exact ⟨z,hz,Scalar.sameKey_trans hxy hyz⟩
  | @map xs _ _ ih =>
    cases v <;> simp only [sameAs,Bool.false_eq_true] at h
    cases w <;> simp only [sameAs,Bool.false_eq_true] at h'
    rename_i ys zs
    simp only [Bool.and_eq_true,beq_iff_eq,sameEntries_iff] at h h'
    simp only [sameAs,Bool.and_eq_true,beq_iff_eq,sameEntries_iff]
    refine ⟨h.1.trans h'.1,fun e he => ?_⟩
    obtain ⟨y,hy,hxy⟩ := h.2 e he
    obtain ⟨d,hd,hkey,rfl⟩ := Entries.exists_of_find? hy
    obtain ⟨z,hz,hyz⟩ := h'.2 d hd
    exact ⟨z,Entries.find?_congr hkey zs ▸ hz,ih e he hxy hyz⟩

/-- Proper values that are equal. -/
structure Equal (v w : Value) : Prop where
  left : v.Proper
  right : w.Proper
  same : v.same w = true

theorem Equal.of_same {v w : Value} (hv : v.Proper) (h : v.same w = true) : Equal v w :=
  ⟨hv,(hv.symm h).1,h⟩

theorem Equal.symm {v w : Value} (h : Equal v w) : Equal w v :=
  ⟨h.right,h.left,(h.left.symm h.same).2⟩

/-- Equal values are equal to the same values. -/
theorem Equal.same_eq {v w : Value} (h : Equal v w) (u : Value) : v.same u = w.same u :=
  Bool.eq_iff_iff.mpr ⟨h.right.trans h.symm.same,h.left.trans h.same⟩

/-- The parts of equal values: equal in turn, and scalars held in one way or another. -/
inductive Matched : Value → Value → Prop
  | scalar {a b : Scalar} (h : a.Respelled b) : Matched (.scalar a) (.scalar b)
  | list {xs ys : List Value} (h : List.Forall₂ Equal xs ys) : Matched (.list xs) (.list ys)
  | pair (a b c d : Value) : Matched (.pair a b) (.pair c d)
  | set (xs ys : List Scalar) : Matched (.set xs) (.set ys)
  | map (es ds : Entries) : Matched (.map es) (.map ds)

theorem Equal.matched {v w : Value} (h : Equal v w) : Matched v w := by
  obtain ⟨hv,-,hsame⟩ := h
  rw [Value.same] at hsame
  cases hv with
  | scalar a =>
    cases w <;> simp only [sameAs,Bool.false_eq_true] at hsame
    exact .scalar (Scalar.respelled_of_alike hsame)
  | @list xs hxs =>
    cases w <;> simp only [sameAs,Bool.false_eq_true] at hsame
    rename_i ys
    rw [sameItems_iff] at hsame
    exact .list (forall₂_imp_of_mem hsame fun x hx y hxy => .of_same (hxs x hx) hxy)
  | pair =>
    cases w <;> simp only [sameAs,Bool.false_eq_true] at hsame
    exact .pair _ _ _ _
  | set =>
    cases w <;> simp only [sameAs,Bool.false_eq_true] at hsame
    exact .set _ _
  | map =>
    cases w <;> simp only [sameAs,Bool.false_eq_true] at hsame
    exact .map _ _

/-- A field of a value is equal to that field of an equal one, if there is one. -/
theorem Equal.exists_field {v w x : Value} (h : Equal v w) {name : String}
    (hx : v.field? name = some x) : ∃ y, w.field? name = some y ∧ Equal x y := by
  obtain ⟨hv,-,hsame⟩ := h
  rw [Value.same] at hsame
  cases hv with
  | @map es hkeys hes =>
    cases w <;> simp only [sameAs,Bool.false_eq_true] at hsame
    rename_i ds
    obtain ⟨-,hall⟩ := Bool.and_eq_true_iff.mp hsame
    obtain ⟨e,he,hkey,rfl⟩ := Entries.exists_of_find? hx
    obtain ⟨y,hy,hxy⟩ := (sameEntries_iff true es ds).mp hall e he
    exact ⟨y,(Entries.find?_congr hkey ds).symm.trans hy,.of_same (hes e he) hxy⟩
  | _ => simp [field?] at hx

theorem Equal.field {v w : Value} (h : Equal v w) (name : String) :
    Option.Rel Equal (v.field? name) (w.field? name) := by
  cases hx : v.field? name with
  | some x =>
    obtain ⟨y,hy,hxy⟩ := h.exists_field hx
    rw [hy]
    exact .some hxy
  | none =>
    cases hy : w.field? name with
    | none => exact .none
    | some y =>
      obtain ⟨x,hx',-⟩ := h.symm.exists_field hy
      simp [hx] at hx'

theorem Equal.lookup {v w : Value} (h : Equal v w) (path : List String) :
    Option.Rel Equal (v.lookup path) (w.lookup path) := by
  induction path generalizing v w with
  | nil =>
    rw [lookup_nil,lookup_nil]
    exact Option.Rel.some h
  | cons name path ih =>
    have hrel := h.field name
    simp only [Value.lookup]
    generalize v.field? name = x? at hrel ⊢
    generalize w.field? name = y? at hrel ⊢
    cases hrel with
    | none => exact .none
    | some hxy => exact ih hxy

end Value
end FlagEngine
