import FlagEngine.Proofs.Equality
import FlagEngine.Condition.Match
import FlagEngine.Intake.Lenient
import Mathlib.Data.List.Perm.Basic

/-! Values that differ in the order of keys. Mappings that hold a key once at most are rearranged
at any depth; what is found under a key is then the same but for its own arrangement, and nothing
that is asked of a value, its equality with another in particular, depends on the arrangement. -/
namespace FlagEngine

section Pairing

variable {α β γ δ : Type} {R : α → β → Prop} {xs : List α} {ys : List β}

/-- Every member of one list has a partner in the other. -/
def Partnered (R : α → β → Prop) (xs : List α) (ys : List β) : Prop :=
  (∀ x ∈ xs, ∃ y ∈ ys, R x y) ∧ ∀ y ∈ ys, ∃ x ∈ xs, R x y

theorem Partnered.of_forall₂ (h : List.Forall₂ R xs ys) : Partnered R xs ys := by
  induction h with
  | nil => simp [Partnered]
  | @cons x y xs ys hxy _ ih =>
    refine ⟨List.forall_mem_cons.mpr ⟨⟨y,List.mem_cons_self,hxy⟩,fun x hx => ?_⟩,
      List.forall_mem_cons.mpr ⟨⟨x,List.mem_cons_self,hxy⟩,fun y hy => ?_⟩⟩
    · obtain ⟨y,hy,h⟩ := ih.1 x hx
      exact ⟨y,List.mem_cons_of_mem _ hy,h⟩
    · obtain ⟨x,hx,h⟩ := ih.2 y hy
      exact ⟨x,List.mem_cons_of_mem _ hx,h⟩

theorem Partnered.forall_congr (h : Partnered R xs ys) {P : α → Prop} {Q : β → Prop}
    (hPQ : ∀ x y, R x y → (P x ↔ Q y)) : (∀ x ∈ xs, P x) ↔ ∀ y ∈ ys, Q y := by
  constructor
  · intro hP y hy
    obtain ⟨x,hx,hxy⟩ := h.2 y hy
    exact (hPQ x y hxy).mp (hP x hx)
  · intro hQ x hx
    obtain ⟨y,hy,hxy⟩ := h.1 x hx
    exact (hPQ x y hxy).mpr (hQ y hy)

theorem Partnered.exists_congr (h : Partnered R xs ys) {P : α → Prop} {Q : β → Prop}
    (hPQ : ∀ x y, R x y → (P x ↔ Q y)) : (∃ x ∈ xs, P x) ↔ ∃ y ∈ ys, Q y := by
  constructor
  · rintro ⟨x,hx,hP⟩
    obtain ⟨y,hy,hxy⟩ := h.1 x hx
    exact ⟨y,hy,(hPQ x y hxy).mp hP⟩
  · rintro ⟨y,hy,hQ⟩
    obtain ⟨x,hx,hxy⟩ := h.2 y hy
    exact ⟨x,hx,(hPQ x y hxy).mpr hQ⟩

theorem Partnered.eq_nil_iff (h : Partnered R xs ys) : xs = [] ↔ ys = [] := by
  rw [List.eq_nil_iff_forall_not_mem,List.eq_nil_iff_forall_not_mem]
  exact h.forall_congr fun _ _ _ => Iff.rfl

theorem forall₂_congr_of_forall₂ {S : γ → δ → Prop} {us : List γ} {vs : List δ}
    (h : List.Forall₂ R xs ys) (h' : List.Forall₂ S us vs) {T : α → γ → Prop} {U : β → δ → Prop}
    (hTU : ∀ x y u v, R x y → S u v → (T x u ↔ U y v)) :
    List.Forall₂ T xs us ↔ List.Forall₂ U ys vs := by
  induction h generalizing us vs with
  | nil => cases h' <;> simp
  | cons hxy _ ih =>
    cases h' with
    | nil => simp
    | cons huv h' => rw [List.forall₂_cons,List.forall₂_cons,hTU _ _ _ _ hxy huv,ih h']

theorem isEmpty_eq_of_length_eq {xs : List α} {ys : List β} (h : xs.length = ys.length) :
    xs.isEmpty = ys.isEmpty := by
  rw [Bool.eq_iff_iff,List.isEmpty_iff_length_eq_zero,List.isEmpty_iff_length_eq_zero,h]

end Pairing

namespace Entries

/-- Mappings that hold related values under the same keys, in whatever order. -/
structure Paired (R : Value → Value → Prop) (es ds : Entries) : Prop where
  length : es.length = ds.length
  distinct : Scalar.Distinct (es.map (·.1))
  distinct' : Scalar.Distinct (ds.map (·.1))
  partners : Partnered (fun e d => e.1 = d.1 ∧ R e.2 d.2) es ds

variable {R : Value → Value → Prop} {es ds : Entries}

theorem forall₂_of_zip (keys : es.map (·.1) = ds.map (·.1))
    (values : ∀ p ∈ es.zip ds, R p.1.2 p.2.2) :
    List.Forall₂ (fun e d => e.1 = d.1 ∧ R e.2 d.2) es ds := by
  induction es generalizing ds with
  | nil => cases ds <;> simp_all
  | cons e es ih =>
    cases ds with
    | nil => simp at keys
    | cons d ds =>
      rw [List.zip_cons_cons,List.forall_mem_cons] at values
      obtain ⟨hkey,hkeys⟩ := List.cons.inj keys
      exact .cons ⟨hkey,values.1⟩ (ih hkeys values.2)

theorem Paired.of_zip {es' : Entries} (distinct : Scalar.Distinct (es.map (·.1)))
    (keys : es.map (·.1) = ds.map (·.1)) (values : ∀ p ∈ es.zip ds, R p.1.2 p.2.2)
    (order : ds.Perm es') : Paired R es es' := by
  obtain ⟨hleft,hright⟩ := Partnered.of_forall₂ (forall₂_of_zip keys values)
  have hsymm : ∀ {k l : Scalar}, k.sameKey l = false → l.sameKey k = false := fun {k l} h =>
    Scalar.sameKey_comm k l ▸ h
  have hlength : es.length = ds.length := by simpa using congrArg List.length keys
  refine ⟨hlength.trans order.length_eq,distinct,?_,fun e he => ?_,fun d hd => ?_⟩
  · exact (order.map (·.1)).pairwise (keys ▸ distinct) hsymm
  · obtain ⟨d,hd,h⟩ := hleft e he
    exact ⟨d,order.mem_iff.mp hd,h⟩
  · exact hright d (order.mem_iff.mpr hd)

theorem Paired.forall_congr (h : Paired R es ds) {P Q : Scalar × Value → Prop}
    (hPQ : ∀ k v w, R v w → (P (k,v) ↔ Q (k,w))) : (∀ e ∈ es, P e) ↔ ∀ d ∈ ds, Q d :=
  h.partners.forall_congr fun
    | (k,v), (_,w), ⟨rfl,hvw⟩ => hPQ k v w hvw

/-- Under one key the two hold related values, or both nothing. -/
theorem Paired.find? (h : Paired R es ds) (k : Scalar) :
    Option.Rel R (es.find? k) (ds.find? k) := by
  cases hv : es.find? k with
  | some v =>
    obtain ⟨e,he,hkey,rfl⟩ := exists_of_find? hv
    obtain ⟨d,hd,hed,hR⟩ := h.partners.1 e he
    rw [find?_of_mem h.distinct' hd (hed ▸ hkey)]
    exact .some hR
  | none =>
    cases hw : ds.find? k with
    | none => exact .none
    | some w =>
      obtain ⟨d,hd,hkey,rfl⟩ := exists_of_find? hw
      obtain ⟨e,he,hed,-⟩ := h.partners.2 d hd
      rw [find?_of_mem h.distinct he (hed ▸ hkey)] at hv
      cases hv

theorem Paired.named? (h : Paired R es ds) (names : List String) :
    (Intake.named? es names = none ∧ Intake.named? ds names = none) ∨
      ∃ name v w, Intake.named? es names = some (name,v) ∧ Intake.named? ds names = some (name,w) ∧
        R v w := by
  induction names with
  | nil => exact .inl ⟨rfl,rfl⟩
  | cons name names ih =>
    have hrel := h.find? (.str name)
    simp only [Intake.named?]
    generalize es.find? (.str name) = v? at hrel ⊢
    generalize ds.find? (.str name) = w? at hrel ⊢
    cases hrel with
    | none => exact ih
    | some hvw => exact .inr ⟨name,_,_,rfl,rfl,hvw⟩

end Entries

namespace Value

/-- The same value with the keys of mappings, and the members of sets, in another order. No mapping
holds a key twice. -/
inductive Rearranged : Value → Value → Prop
  | scalar (a : Scalar) : Rearranged (.scalar a) (.scalar a)
  | list {xs ys : List Value} (length : xs.length = ys.length)
    (items : ∀ p ∈ xs.zip ys, Rearranged p.1 p.2) : Rearranged (.list xs) (.list ys)
  | pair {u u' v v' : Value} (fst : Rearranged u u') (snd : Rearranged v v') :
    Rearranged (.pair u v) (.pair u' v')
  | set {xs ys : List Scalar} (order : xs.Perm ys) : Rearranged (.set xs) (.set ys)
  | map {es ds es' : Entries} (distinct : Scalar.Distinct (es.map (·.1)))
    (keys : es.map (·.1) = ds.map (·.1)) (values : ∀ p ∈ es.zip ds, Rearranged p.1.2 p.2.2)
    (order : ds.Perm es') : Rearranged (.map es) (.map es')

namespace Rearranged

theorem items_forall₂ {xs ys : List Value} (h : Rearranged (.list xs) (.list ys)) :
    List.Forall₂ Rearranged xs ys := by
  cases h with
  | list length items => exact List.forall₂_iff_zip.mpr ⟨length,fun h => items _ h⟩

theorem paired {es ds : Entries} (h : Rearranged (.map es) (.map ds)) :
    es.Paired Rearranged ds := by
  cases h with
  | map distinct keys values order => exact .of_zip distinct keys values order

/-- Objects with the same names, and values rearranged under each of them. -/
theorem obj {fs gs gs' : List (String × Value)} (names : (fs.map (·.1)).Nodup) (order : gs.Perm gs')
    (values : List.Forall₂ (fun f g => f.1 = g.1 ∧ f.2.Rearranged g.2) fs gs) :
    (Value.obj fs).Rearranged (Value.obj gs') := by
  have hkeys : List.Forall₂ (fun f g => Scalar.str f.1 = .str g.1) fs gs :=
    values.imp fun _ _ h => congrArg Scalar.str h.1
  refine .map ?_ ?_ ?_ (order.map fun g => (Scalar.str g.1,g.2))
  · refine List.pairwise_map.mpr (List.pairwise_map.mpr ((List.pairwise_map.mp names).imp ?_))
    simp
  · rw [List.map_map,List.map_map,← List.forall₂_eq_eq_eq,List.forall₂_map_left_iff,
      List.forall₂_map_right_iff]
    exact hkeys
  · rw [List.zip_map]
    rintro _ hp
    obtain ⟨⟨f,g⟩,hfg,rfl⟩ := List.mem_map.mp hp
    exact ((List.forall₂_iff_zip.mp values).2 hfg).2

theorem sameAs_congr {v v' : Value} (hv : v.Rearranged v') {w w' : Value} (hw : w.Rearranged w')
    (strict : Bool) : sameAs strict v w = sameAs strict v' w' := by
  induction hv generalizing w w' strict with
  | scalar a => cases hw <;> simp only [sameAs]
  | @list xs ys length _ ih =>
    cases hw with
    | @list us vs length' items' =>
      have hxs : List.Forall₂ (fun x y => ∀ {u v : Value}, u.Rearranged v →
          sameAs strict x u = sameAs strict y v) xs ys :=
        List.forall₂_iff_zip.mpr ⟨length,fun hp _ _ huv => ih _ hp huv strict⟩
      simp only [sameAs]
      rw [Bool.eq_iff_iff,sameItems_iff,sameItems_iff]
      exact forall₂_congr_of_forall₂ hxs (items_forall₂ (.list length' items'))
        fun x y u v hxy huv => by rw [hxy huv]
    | _ => simp only [sameAs]
  | pair _ _ ihu ihv =>
    cases hw with
    | pair fst snd => simp only [sameAs,ihu fst false,ihv snd false]
    | _ => simp only [sameAs]
  | set order =>
    cases hw with
    | set order' =>
      simp only [sameAs,order.length_eq,order'.length_eq,order.all_eq,order'.any_eq]
    | _ => simp only [sameAs]
  | @map es ds es' distinct keys _ order ih =>
    cases hw with
    | map distinct' keys' values' order' =>
      have hes := Entries.Paired.of_zip (R := fun x y => ∀ {u v : Value}, u.Rearranged v →
        sameAs strict x u = sameAs strict y v) distinct keys
        (fun p hp _ _ huv => ih p hp huv strict) order
      have hds := paired (.map distinct' keys' values' order')
      simp only [sameAs]
      rw [Bool.eq_iff_iff,Bool.and_eq_true,Bool.and_eq_true,sameEntries_iff,sameEntries_iff,
        hes.length,hds.length]
      refine and_congr_right fun _ => hes.forall_congr fun k v v' hv => ?_
      have hrel := hds.find? k
      generalize Entries.find? _ k = w? at hrel ⊢
      generalize Entries.find? _ k = w?' at hrel ⊢
      cases hrel with
      | none => simp
      | some hw => simp [hv hw]
    | _ => simp only [sameAs]

variable {v v' w w' : Value}

theorem truthy_eq (h : v.Rearranged v') : v.truthy = v'.truthy := by
  cases h with
  | scalar | pair => rfl
  | list length => simp only [truthy,isEmpty_eq_of_length_eq length]
  | set order => simp only [truthy,order.isEmpty_eq]
  | map distinct keys values order =>
    have hlength := (Entries.Paired.of_zip distinct keys values order).length
    simp only [truthy,isEmpty_eq_of_length_eq hlength]

theorem typeName_eq (h : v.Rearranged v') : v.typeName = v'.typeName := by
  cases h <;> rfl

theorem searchText?_eq (h : v.Rearranged v') : v.searchText? = v'.searchText? := by
  cases h <;> rfl

theorem version?_eq (h : v.Rearranged v') : v.version? = v'.version? := by
  cases h <;> rfl

theorem compare?_eq (hv : v.Rearranged v') (hw : w.Rearranged w') :
    v.compare? w = v'.compare? w' := by
  cases hv with
  | scalar a =>
    cases hw with
    | scalar b => rfl
    | _ => cases a <;> rfl
  | _ => rfl

theorem orderHolds_eq (hv : v.Rearranged v') (hw : w.Rearranged w') (o : OrderTest) :
    o.holds v w = o.holds v' w' := by
  cases o <;> simp only [OrderTest.holds,lessThan,Value.atMost,moreThan,Value.atLeast,
    compare?_eq hv hw]

theorem any_same_eq (hv : v.Rearranged v') {ws ws' : List Value}
    (hws : List.Forall₂ Rearranged ws ws') : ws.any v.same = ws'.any v'.same := by
  induction hws with
  | nil => rfl
  | cons hw _ ih => simp only [List.any_cons,same,sameAs_congr hv hw,← ih]

theorem isAmong_eq (hv : v.Rearranged v') {ws ws' : List Value}
    (hws : List.Forall₂ Rearranged ws ws') : v.isAmong ws = v'.isAmong ws' := by
  cases hv with
  | @list xs ys length items =>
    have hxs := items_forall₂ (.list length items)
    simp only [isAmong]
    rw [Bool.eq_iff_iff,List.any_eq_true,List.any_eq_true]
    exact (Partnered.of_forall₂ hxs).exists_congr fun x y hxy => by rw [any_same_eq hxy hws]
  | scalar a => exact any_same_eq (.scalar a) hws
  | pair fst snd => exact any_same_eq (.pair fst snd) hws
  | set order => exact any_same_eq (.set order) hws
  | map distinct keys values order => exact any_same_eq (.map distinct keys values order) hws

theorem field? (h : v.Rearranged v') (name : String) :
    Option.Rel Rearranged (v.field? name) (v'.field? name) := by
  cases h with
  | map distinct keys values order =>
    exact (Entries.Paired.of_zip distinct keys values order).find? (.str name)
  | _ => exact .none

theorem lookup (h : v.Rearranged v') (path : List String) :
    Option.Rel Rearranged (v.lookup path) (v'.lookup path) := by
  induction path generalizing v v' with
  | nil =>
    rw [lookup_nil,lookup_nil]
    exact Option.Rel.some h
  | cons name path ih =>
    have hrel := h.field? name
    simp only [Value.lookup]
    generalize v.field? name = x? at hrel ⊢
    generalize v'.field? name = y? at hrel ⊢
    cases hrel with
    | none => exact .none
    | some hxy => exact ih hxy

end Rearranged
end Value
end FlagEngine
