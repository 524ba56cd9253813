import FlagEngine.Intake.Lenient
import Mathlib.Data.List.Forall2

/-! Reading records. A record is read by the names of its fields, and a mapping entry by entry, so
records and mappings whose values are related are read alike if related values are: into what is
related, or they are wrong in the same places. -/
namespace FlagEngine

namespace Checked

variable {α β α' β' : Type}

/-- Both good and related, or both bad in the same places. -/
inductive Alike (R : α → β → Prop) : Checked α → Checked β → Prop
  | good {a : α} {b : β} (h : R a b) : Alike R (.good a) (.good b)
  | bad (errors : List Location) : Alike R (.bad errors) (.bad errors)

theorem Alike.refl {R : α → α → Prop} (hR : ∀ a, R a a) (x : Checked α) : Alike R x x := by
  cases x with
  | good a => exact .good (hR a)
  | bad errors => exact .bad errors

theorem Alike.imp {R S : α → β → Prop} {x : Checked α} {y : Checked β} (h : Alike R x y)
    (hRS : ∀ a b, R a b → S a b) : Alike S x y := by
  cases h with
  | good h => exact .good (hRS _ _ h)
  | bad errors => exact .bad errors

theorem Alike.map {R : α → β → Prop} {S : α' → β' → Prop} {g : α → α'} {g' : β → β'}
    {x : Checked α} {y : Checked β} (h : Alike R x y) (hg : ∀ a b, R a b → S (g a) (g' b)) :
    Alike S (g <$> x) (g' <$> y) := by
  cases h with
  | good h => exact .good (hg _ _ h)
  | bad errors => exact .bad errors

theorem Alike.seq {R : α → β → Prop} {S : α' → β' → Prop} {g : Checked (α → α')}
    {g' : Checked (β → β')} {x : Checked α} {y : Checked β}
    (hg : Alike (fun p q => ∀ a b, R a b → S (p a) (q b)) g g') (h : Alike R x y) :
    Alike S (g <*> x) (g' <*> y) := by
  cases hg with
  | good hg =>
    cases h with
    | good h => exact .good (hg _ _ h)
    | bad errors => exact .bad errors
  | bad errors =>
    cases h with
    | good h => exact .bad errors
    | bad errors' => exact .bad (errors ++ errors')

theorem Alike.inside {R : α → β → Prop} {x : Checked α} {y : Checked β} (h : Alike R x y)
    (name : String) : Alike R (x.inside name) (y.inside name) := by
  cases h with
  | good h => exact .good h
  | bad errors => exact .bad _

theorem Alike.eq {x y : Checked α} (h : Alike Eq x y) : x = y := by
  cases h with
  | good h => rw [h]
  | bad errors => rfl

end Checked

/-- The same key, and related values. -/
structure SameEntry {κ β : Type} (R : β → β → Prop) (x y : κ × β) : Prop where
  key_eq : x.1 = y.1
  value : R x.2 y.2

theorem Value.eq_of_sameKey_str {k : Scalar} {name : String} (h : k.sameKey (.str name) = true) :
    k = .str name := by
  cases k with
  | str s => rw [Scalar.sameKey_str,beq_iff_eq] at h; rw [h]
  | _ => simp [Scalar.sameKey,Scalar.same,Scalar.place?] at h

namespace Entries

/-- The same key, and under a name values that are related as those under the name are. -/
structure SameField (R : String → Value → Value → Prop) (e d : Scalar × Value) : Prop where
  key_eq : e.1 = d.1
  value : ∀ name, e.1 = .str name → R name e.2 d.2

theorem SameField.of_value {R : String → Value → Value → Prop} (name : String) {v w : Value}
    (h : R name v w) : SameField R (.str name,v) (.str name,w) :=
  ⟨rfl,fun _ hname => Scalar.str.inj hname ▸ h⟩

theorem find?_of_sameField {R : String → Value → Value → Prop} {es ds : Entries}
    (h : List.Forall₂ (SameField R) es ds) (name : String) :
    Option.Rel (R name) (es.find? (.str name)) (ds.find? (.str name)) := by
  induction h with
  | nil => exact .none
  | @cons e d _ _ hed _ ih =>
    obtain ⟨k,v⟩ := e
    obtain ⟨k',w⟩ := d
    obtain ⟨rfl,hR⟩ := hed
    by_cases hkey : k.sameKey (.str name) = true
    · simp only [find?,if_pos hkey]
      exact .some (hR name (Value.eq_of_sameKey_str hkey))
    · simp only [find?,if_neg hkey]
      exact ih

end Entries

namespace Intake

variable {α : Type}

theorem field_alike {R : String → Value → Value → Prop} {es ds : Entries}
    (h : List.Forall₂ (Entries.SameField R) es ds) (names : List String) {absent : α}
    {g : Value → Checked α} {S : α → α → Prop} (habsent : S absent absent)
    (hg : ∀ name ∈ names, ∀ v w, R name v w → Checked.Alike S (g v) (g w)) :
    Checked.Alike S (field es names absent g) (field ds names absent g) := by
  unfold field
  induction names with
  | nil => exact .good habsent
  | cons name names ih =>
    rw [List.forall_mem_cons] at hg
    have hrel := Entries.find?_of_sameField h name
    unfold named?
    generalize es.find? (.str name) = v? at hrel ⊢
    generalize ds.find? (.str name) = w? at hrel ⊢
    cases hrel with
    | none => exact ih hg.2
    | some hvw => exact (hg.1 _ _ hvw).inside name

theorem entries_alike {R : Value → Value → Prop} {S : α → α → Prop} {g : Value → Checked α}
    (hg : ∀ v w, R v w → Checked.Alike S (g v) (g w)) {es ds : Entries}
    (h : List.Forall₂ (SameEntry R) es ds) :
    Checked.Alike (List.Forall₂ (SameEntry S)) (entries g es) (entries g ds) := by
  induction h with
  | nil => exact .good .nil
  | @cons e d es ds hed _ ih =>
    obtain ⟨k,v⟩ := e
    obtain ⟨k',w⟩ := d
    obtain ⟨rfl,hvw⟩ := hed
    have hkey : Checked.Alike (fun p q => ∀ x y, S x y → SameEntry S (p x) (q y))
        (Prod.mk <$> keyText k : Checked (α → String × α)) (Prod.mk <$> keyText k) :=
      (Checked.Alike.refl (R := Eq) (fun _ => rfl) (keyText k)).map fun _ _ hk _ _ hxy => ⟨hk,hxy⟩
    have hentry := hkey.seq ((hg v w hvw).inside (keyName k))
    exact (hentry.map fun _ _ hxy _ _ => .cons hxy).seq ih

end Intake
end FlagEngine
