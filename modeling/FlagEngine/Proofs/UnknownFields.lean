import FlagEngine.Proofs.Loading

/-! Fields that nobody knows. A record is read by the names of its fields, so two records that are
the same once all other entries are left out are read alike, wherever those entries stood. This
holds of a payload, its features, their rules, and what rules say of variations and filters; the
keys of features, and what stands under a known name, count in full. -/
namespace FlagEngine

namespace Entries

/-- The key is one of the names. -/
def isNamed (names : List String) : Scalar → Bool
  | .str s => names.contains s
  | _ => false

/-- The entries under some names. -/
def named (names : List String) (es : Entries) : Entries := es.filter fun e => isNamed names e.1

/-- The same entries under some names, in the same order, but for values that are related as those
under the name are. -/
def AgreeUnder (names : List String) (R : String → Value → Value → Prop) (es ds : Entries) : Prop :=
  List.Forall₂ (SameField R) (named names es) (named names ds)

theorem find?_named {names : List String} {name : String} (h : name ∈ names) (es : Entries) :
    find? (named names es) (.str name) = es.find? (.str name) := by
  induction es with
  | nil => rfl
  | cons e es ih =>
    by_cases hkey : e.1.sameKey (.str name) = true
    · have hnamed : isNamed names e.1 = true := by
        rw [Value.eq_of_sameKey_str hkey]
        simpa [isNamed] using h
      simp only [named,List.filter_cons,hnamed,if_true,find?,if_pos hkey]
    · simp only [find?,if_neg hkey,← ih,named,List.filter_cons]
      split
      · simp only [find?,if_neg hkey]
      · rfl

variable {names : List String} {R : String → Value → Value → Prop} {es ds : Entries}

theorem AgreeUnder.has (h : AgreeUnder names R es ds) (name : String) (hname : name ∈ names) :
    es.has (.str name) = ds.has (.str name) := by
  have hrel := find?_of_sameField h name
  rw [find?_named hname,find?_named hname] at hrel
  unfold Entries.has
  generalize es.find? (.str name) = v? at hrel ⊢
  generalize ds.find? (.str name) = w? at hrel ⊢
  cases hrel <;> rfl

/-- Entries that are related throughout agree under any names. -/
theorem agreeUnder_of_forall₂ (h : List.Forall₂ (SameField R) es ds) :
    AgreeUnder names R es ds := by
  unfold AgreeUnder named
  induction h with
  | nil => exact .nil
  | @cons e d _ _ hed _ ih =>
    rw [List.filter_cons,List.filter_cons,hed.key_eq]
    split
    · exact .cons hed ih
    · exact ih

/-- An entry under no known name may be put anywhere. -/
theorem AgreeUnder.insert (xs : Entries) {ys : Entries} (h : AgreeUnder names R es (xs ++ ys))
    {k : Scalar} (hk : isNamed names k = false) (v : Value) :
    AgreeUnder names R es (xs ++ (k,v) :: ys) := by
  have hnamed : named names (xs ++ (k,v) :: ys) = named names (xs ++ ys) := by
    simp only [named,List.filter_append,List.filter_cons,hk,Bool.false_eq_true,if_false]
  unfold AgreeUnder
  rw [hnamed]
  exact h

end Entries

namespace Value

/-- The same value, or two records that agree under their names. -/
inductive SameRecord (names : List String) (R : String → Value → Value → Prop) :
    Value → Value → Prop
  | refl (v : Value) : SameRecord names R v v
  | record {es ds : Entries} (h : Entries.AgreeUnder names R es ds) :
      SameRecord names R (.map es) (.map ds)

/-- The same value, or two lists of related items. -/
inductive SameItems (R : Value → Value → Prop) : Value → Value → Prop
  | refl (v : Value) : SameItems R v v
  | list {xs ys : List Value} (h : List.Forall₂ R xs ys) : SameItems R (.list xs) (.list ys)

/-- The same value, or two mappings of related values under the same keys. -/
inductive SameMembers (R : Value → Value → Prop) : Value → Value → Prop
  | refl (v : Value) : SameMembers R v v
  | map {es ds : Entries} (h : List.Forall₂ (SameEntry R) es ds) :
      SameMembers R (.map es) (.map ds)

end Value

namespace Intake

open Value

def infoNames : List String := ["key","name","passthrough"]

def filterNames : List String := ["seed","ranges","hashVersion","hash_version","attribute"]

def ruleNames : List String :=
  ["condition","force","coverage","range","ranges","variations","weights","key","namespace",
    "hashAttribute","hash_attribute","hashVersion","hash_version","seed","meta","filters","name",
    "phase","active"]

def featureNames : List String := ["defaultValue","default_value","rules"]

def catalogNames : List String :=
  ["features","encryptedFeatures","encrypted_features","dateUpdated","date_updated"]

/-! The same but for unknown fields. -/

def SameInfo : Value → Value → Prop := SameRecord infoNames fun _ => Eq

def SameFilter : Value → Value → Prop := SameRecord filterNames fun _ => Eq

def SameRule : Value → Value → Prop :=
  SameRecord ruleNames fun
    | "meta" => SameItems SameInfo
    | "filters" => SameItems SameFilter
    | _ => Eq

def SameFeature : Value → Value → Prop :=
  SameRecord featureNames fun
    | "rules" => SameItems SameRule
    | _ => Eq

def SameCatalog : Value → Value → Prop :=
  SameRecord catalogNames fun
    | "features" => SameMembers SameFeature
    | _ => Eq

section Fields

variable {α : Type} {names : List String} {R : String → Value → Value → Prop} {es ds : Entries}

theorem named?_named {fieldNames : List String} (hnames : ∀ name ∈ fieldNames, name ∈ names)
    (es : Entries) : named? (Entries.named names es) fieldNames = named? es fieldNames := by
  induction fieldNames with
  | nil => rfl
  | cons name fieldNames ih =>
    rw [List.forall_mem_cons] at hnames
    unfold named?
    rw [Entries.find?_named hnames.1,ih hnames.2]

theorem field_of_agreeUnder (h : Entries.AgreeUnder names R es ds) (fieldNames : List String)
    (hnames : ∀ name ∈ fieldNames, name ∈ names) {absent : α} {g : Value → Checked α}
    {S : α → α → Prop} (habsent : S absent absent)
    (hg : ∀ name ∈ fieldNames, ∀ v w, R name v w → Checked.Alike S (g v) (g w)) :
    Checked.Alike S (field es fieldNames absent g) (field ds fieldNames absent g) := by
  have halike := field_alike h fieldNames habsent hg
  unfold field at halike ⊢
  rwa [named?_named hnames,named?_named hnames] at halike

/-- A field that is read alike from related values. -/
theorem field_eq_of_agreeUnder (h : Entries.AgreeUnder names R es ds) (fieldNames : List String)
    (hnames : ∀ name ∈ fieldNames, name ∈ names) (absent : α) {g : Value → Checked α}
    (hg : ∀ name ∈ fieldNames, ∀ v w, R name v w → g v = g w) :
    field es fieldNames absent g = field ds fieldNames absent g :=
  Checked.Alike.eq (field_of_agreeUnder h fieldNames hnames rfl fun name hname v w hvw =>
    hg name hname v w hvw ▸ .refl (fun _ => rfl) (g v))

theorem field_eq_of_agree (h : Entries.AgreeUnder names (fun _ => Eq) es ds)
    (fieldNames : List String) (hnames : ∀ name ∈ fieldNames, name ∈ names) (absent : α)
    (g : Value → Checked α) : field es fieldNames absent g = field ds fieldNames absent g :=
  field_eq_of_agreeUnder h fieldNames hnames absent fun _ _ _ _ hvw => congrArg g hvw

theorem list_eq_of_sameItems {R : Value → Value → Prop} {g : Value → Checked α}
    (hg : ∀ v w, R v w → g v = g w) {v w : Value} (h : SameItems R v w) : list g v = list g w := by
  cases h with
  | refl => rfl
  | @list xs ys h =>
    show Checked.items g 0 xs = Checked.items g 0 ys
    generalize 0 = i
    induction h generalizing i with
    | nil => rfl
    | cons hxy _ ih => rw [Checked.items,Checked.items,hg _ _ hxy,ih]

theorem nullable_eq_of_sameItems {R : Value → Value → Prop} {g : Value → Checked α}
    (hg : ∀ v w, R v w → g v = g w) {v w : Value} (h : SameItems R v w) :
    nullable (list g) v = nullable (list g) w := by
  have hlist := list_eq_of_sameItems hg h
  cases h with
  | refl => rfl
  | list => exact congrArg (Checked.map some) hlist

end Fields

theorem variationInfo_eq {v w : Value} (h : SameInfo v w) : variationInfo v = variationInfo w := by
  cases h with
  | refl => rfl
  | record h => simp (disch := decide) only [variationInfo,record,field_eq_of_agree h]

theorem filter_eq {v w : Value} (h : SameFilter v w) : filter v = filter w := by
  cases h with
  | refl => rfl
  | record h => simp (disch := decide) only [filter,record,field_eq_of_agree h]

theorem ruleFields_eq {es ds : Entries} (h : SameRule (.map es) (.map ds)) :
    ruleFields es = ruleFields ds := by
  cases h with
  | refl => rfl
  | record h =>
    -- under every other name the values are the same
    have hplain : ∀ {α : Type} (fieldNames : List String),
        (∀ name ∈ fieldNames, name ∈ ruleNames ∧ name ≠ "meta" ∧ name ≠ "filters") →
          ∀ (absent : α) g, field es fieldNames absent g = field ds fieldNames absent g := by
      intro α fieldNames hnames absent g
      refine field_eq_of_agreeUnder h fieldNames (fun name hname => (hnames name hname).1) absent ?_
      intro name hname v w hvw
      have hne := (hnames name hname).2
      split at hvw
      · exact absurd rfl hne.1
      · exact absurd rfl hne.2
      · rw [hvw]
    have hmeta := field_eq_of_agreeUnder h ["meta"] (by decide) none
      (g := nullable (list variationInfo)) <| by
        simp only [List.mem_singleton,forall_eq]
        exact fun v w =>
          nullable_eq_of_sameItems (g := variationInfo) fun _ _ => variationInfo_eq
    have hfilters := field_eq_of_agreeUnder h ["filters"] (by decide) none
      (g := nullable (list filter)) <| by
        simp only [List.mem_singleton,forall_eq]
        exact fun v w => nullable_eq_of_sameItems (g := filter) fun _ _ => filter_eq
    simp (disch := decide) only [ruleFields,hplain,hmeta,hfilters]

/-- Rules that are the same but for unknown fields, in the same order. -/
abbrev SameRules : List Value → List Value → Prop := List.Forall₂ SameRule

theorem sameRules_self (vs : List Value) : SameRules vs vs :=
  List.forall₂_same.mpr fun v _ => .refl v

/-- The same default, and rules that are the same but for unknown fields. -/
structure SameRaw (raw raw' : RawFeature) : Prop where
  default_eq : raw.default = raw'.default
  rules : SameRules (raw.rules.getD []) (raw'.rules.getD [])

theorem SameRaw.self (raw : RawFeature) : SameRaw raw raw := ⟨rfl,sameRules_self _⟩

theorem rules_alike {v w : Value} (h : SameItems SameRule v w) :
    Checked.Alike (fun vs ws => SameRules (vs.getD []) (ws.getD [])) (nullable (list anything) v)
      (nullable (list anything) w) := by
  cases h with
  | refl => exact .refl (fun vs => sameRules_self (vs.getD [])) _
  | @list xs ys h =>
    show Checked.Alike _ (some <$> Checked.items anything 0 xs)
      (some <$> Checked.items anything 0 ys)
    rw [items_anything,items_anything]
    exact .good h

theorem rawFeature_alike {v w : Value} (h : SameFeature v w) :
    Checked.Alike SameRaw (rawFeature v) (rawFeature w) := by
  cases h with
  | refl => exact .refl SameRaw.self _
  | @record es ds h =>
    have hdefault : Checked.Alike Eq (field es ["defaultValue","default_value"] .null anything)
        (field ds ["defaultValue","default_value"] .null anything) := by
      refine field_of_agreeUnder h _ (by decide) rfl ?_
      intro name hname v w hvw
      obtain rfl | rfl : name = "defaultValue" ∨ name = "default_value" := by simpa using hname
      · exact .good hvw
      · exact .good hvw
    have hrules := field_of_agreeUnder h ["rules"] (by decide) (g := nullable (list anything))
      (S := fun vs ws => SameRules (vs.getD []) (ws.getD [])) (sameRules_self (none.getD [])) <| by
        simp only [List.mem_singleton,forall_eq]
        exact fun v w => rules_alike
    exact (hdefault.map fun _ _ hd _ _ hr => ⟨hd,hr⟩).seq hrules

variable {α : Type}

theorem forall₂_putText {S : α → α → Prop} {key : String} {x y : α} (hxy : S x y)
    {xs ys : List (String × α)} (h : List.Forall₂ (SameEntry S) xs ys) :
    List.Forall₂ (SameEntry S) (putText key x xs) (putText key y ys) := by
  induction h with
  | nil => exact .cons ⟨rfl,hxy⟩ .nil
  | @cons x' y' _ _ hxy' h ih =>
    obtain ⟨k,b⟩ := x'
    obtain ⟨k',c⟩ := y'
    obtain ⟨rfl,hS⟩ := hxy'
    simp only [putText]
    split
    · exact .cons ⟨rfl,hxy⟩ h
    · exact .cons ⟨rfl,hS⟩ ih

theorem dictionary_alike {R : Value → Value → Prop} {S : α → α → Prop} {g : Value → Checked α}
    (hS : ∀ x, S x x) (hg : ∀ v w, R v w → Checked.Alike S (g v) (g w)) {v w : Value}
    (h : SameMembers R v w) :
    Checked.Alike (List.Forall₂ (SameEntry S)) (dictionary g v) (dictionary g w) := by
  cases h with
  | refl => exact .refl (fun xs => List.forall₂_same.mpr fun x _ => ⟨rfl,hS x.2⟩) _
  | map h =>
    refine Checked.Alike.map (entries_alike hg h) fun xs ys hxys => ?_
    -- both put values under the same keys in the same order, wherever they start
    have hfold : ∀ ms ns : List (String × α), List.Forall₂ (SameEntry S) ms ns →
        List.Forall₂ (SameEntry S) (xs.foldl (fun m e => putText e.1 e.2 m) ms)
          (ys.foldl (fun m e => putText e.1 e.2 m) ns) := by
      induction hxys with
      | nil => exact fun _ _ hms => hms
      | @cons x y _ _ hxy _ ih =>
        intro ms ns hms
        rw [List.foldl_cons,List.foldl_cons,hxy.key_eq]
        exact ih _ _ (forall₂_putText hxy.value hms)
    exact hfold [] [] .nil

/-- Features under the same keys in the same order, the same but for unknown fields of rules. -/
abbrev SameRaws : List (String × RawFeature) → List (String × RawFeature) → Prop :=
  List.Forall₂ (SameEntry SameRaw)

theorem rawCatalog_of_sameCatalog {es ds : Entries} (h : SameCatalog (.map es) (.map ds)) :
    Checked.Alike (fun raw raw' =>
        SameRaws raw.features raw'.features ∧ raw.sealedFeatures = raw'.sealedFeatures)
      (rawCatalog es) (rawCatalog ds) := by
  cases h with
  | refl =>
    exact .refl (fun raw => ⟨List.forall₂_same.mpr fun x _ => ⟨rfl,.self x.2⟩,rfl⟩) _
  | record h =>
    have hfeatures := field_of_agreeUnder h ["features"] (by decide) (g := dictionary rawFeature)
      (S := SameRaws) (.nil : SameRaws [] []) <| by
        simp only [List.mem_singleton,forall_eq]
        exact fun v w => dictionary_alike (g := rawFeature) SameRaw.self fun _ _ => rawFeature_alike
    have hplain : ∀ fieldNames : List String,
        (∀ name ∈ fieldNames, name ∈ catalogNames ∧ name ≠ "features") →
          Checked.Alike Eq (field es fieldNames none (nullable string))
            (field ds fieldNames none (nullable string)) := by
      intro fieldNames hnames
      refine field_of_agreeUnder h fieldNames (fun name hname => (hnames name hname).1) rfl ?_
      intro name hname v w hvw
      split at hvw
      · exact absurd rfl (hnames _ hname).2
      · rw [hvw]
        exact .refl (fun _ => rfl) _
    have hsealed := hplain ["encryptedFeatures","encrypted_features"] (by decide)
    have hdate := hplain ["dateUpdated","date_updated"] (by decide)
    exact ((hfeatures.map fun _ _ hf _ _ hs _ _ _ => ⟨hf,hs⟩).seq hsealed).seq hdate

end Intake

open Intake

theorem Rule.compile_of_sameRule {v w : Value} (h : SameRule v w) (k : String) (limit : Int) :
    Rule.compile v k limit = Rule.compile w k limit := by
  cases h with
  | refl => rfl
  | record h =>
    unfold Rule.compile
    dsimp only
    rw [ruleFields_eq (.record h)]

theorem Rule.compileAll_of_sameRules {vs ws : List Value} (h : SameRules vs ws) (k : String)
    (limit : Int) : Rule.compileAll k limit vs = Rule.compileAll k limit ws := by
  induction h with
  | nil => rfl
  | cons hvw _ ih => simp only [Rule.compileAll,Rule.compile_of_sameRule hvw,ih]

theorem Feature.compile_of_sameRaw {raw raw' : RawFeature} (h : SameRaw raw raw') (k : String)
    (limit : Int) : Feature.compile k raw limit = Feature.compile k raw' limit := by
  simp only [Feature.compile,Rule.compileAll_of_sameRules h.rules,h.default_eq]

theorem Catalog.compileAll_of_sameRaws {xs ys : List (String × RawFeature)} (h : SameRaws xs ys)
    (limit : Int) : Catalog.compileAll limit xs = Catalog.compileAll limit ys := by
  induction h with
  | nil => rfl
  | @cons x y _ _ hxy _ ih =>
    obtain ⟨k,raw⟩ := x
    obtain ⟨k',raw'⟩ := y
    obtain ⟨rfl,hraw⟩ := hxy
    simp only [Catalog.compileAll,Feature.compile_of_sameRaw hraw,ih]

/-- A payload with features of its own is read as it is. -/
theorem Catalog.wrapped_eq {es : Entries}
    (h : (es.has (.str "features") || es.has (.str "encryptedFeatures")) = true) :
    Catalog.wrapped es = es := if_pos h

theorem Catalog.read_of_sameCatalog {es ds : Entries}
    (hes : (es.has (.str "features") || es.has (.str "encryptedFeatures")) = true)
    (h : SameCatalog (.map es) (.map ds)) (key : Option String) (limit : Int) :
    Catalog.read (.map es) key limit = Catalog.read (.map ds) key limit := by
  have hds : (ds.has (.str "features") || ds.has (.str "encryptedFeatures")) = true := by
    cases h with
    | refl => exact hes
    | record h => rwa [← h.has "features" (by decide),← h.has "encryptedFeatures" (by decide)]
  have halike := rawCatalog_of_sameCatalog h
  unfold Catalog.read Catalog.readBy
  dsimp only
  rw [wrapped_eq hes,wrapped_eq hds]
  generalize rawCatalog es = x at halike
  generalize rawCatalog ds = y at halike
  cases halike with
  | bad wrong => rfl
  | @good raw raw' hraw =>
    obtain ⟨hfeatures,hsealed⟩ := hraw
    dsimp only
    rw [hsealed]
    simp only [Catalog.compile,compileAll_of_sameRaws hfeatures]

/-- Unknown fields are ignored. Of a payload that has features, open or sealed, only what stands
under known names counts: in the payload itself, in its features, in their rules, and in what rules
say of variations and filters. Without the rest the same is loaded with the same notes, or it is
refused for the same places, and every feature is decided alike. -/
theorem unknown_fields_are_ignored {es ds : Entries}
    (hes : (es.has (.str "features") || es.has (.str "encryptedFeatures")) = true)
    (h : SameCatalog (.map es) (.map ds)) (key : Option String) (limit : Int) :
    Catalog.read (.map es) key limit = Catalog.read (.map ds) key limit ∧
      ∀ c c', (Catalog.read (.map es) key limit).1 = .ok c →
        (Catalog.read (.map ds) key limit).1 = .ok c' →
          ∀ {σ : Type} (s : Setting σ) tracker? feature a (w : World σ),
            c.evaluate s tracker? feature a w = c'.evaluate s tracker? feature a w := by
  have hread := Catalog.read_of_sameCatalog hes h key limit
  refine ⟨hread,fun c c' hc hc' σ s tracker? feature a w => ?_⟩
  rw [hread,hc'] at hc
  rw [Except.ok.inj hc]

/-- A payload with one feature, noted at every level. -/
def Entries.noted (notes : Entries) : Entries :=
  let info : Value := .map ((.str "key",.str "plain") :: notes)
  let filter : Value := .map (notes ++ [(.str "seed",.str "summer")])
  let rule : Value := .map ((.str "variations",.list [.int 1,.int 2]) :: notes ++
    [(.str "meta",.list [info]),(.str "filters",.list [filter])])
  let feature : Value := .map (notes ++ [(.str "rules",.list [rule])])
  notes ++ [(.str "features",.obj [("banner",feature)])]

theorem sameCatalog_noted (v : Value) :
    SameCatalog (.map (Entries.noted [])) (.map (Entries.noted [(.str "note",v)])) := by
  have hinfo : SameInfo (.map [(.str "key",.str "plain")])
      (.map [(.str "key",.str "plain"),(.str "note",v)]) :=
    .record (.insert [(.str "key",.str "plain")]
      (Entries.agreeUnder_of_forall₂ (.cons (.of_value "key" rfl) .nil)) rfl v)
  have hfilter : SameFilter (.map [(.str "seed",.str "summer")])
      (.map [(.str "note",v),(.str "seed",.str "summer")]) :=
    .record (.insert [] (Entries.agreeUnder_of_forall₂ (.cons (.of_value "seed" rfl) .nil)) rfl v)
  have hrule : SameRule _ _ :=
    .record (.insert [(.str "variations",.list [.int 1,.int 2])] (Entries.agreeUnder_of_forall₂
      (.cons (.of_value "variations" rfl)
        (.cons (.of_value "meta" (.list (.cons hinfo .nil)))
          (.cons (.of_value "filters" (.list (.cons hfilter .nil))) .nil))))
      (k := .str "note") rfl v)
  have hfeature : SameFeature _ _ :=
    .record (.insert [] (Entries.agreeUnder_of_forall₂
      (.cons (.of_value "rules" (.list (.cons hrule .nil))) .nil)) (k := .str "note") rfl v)
  have hfeatures : Value.SameMembers SameFeature _ _ :=
    .map (.cons (a := (.str "banner",_)) (b := (.str "banner",_)) ⟨rfl,hfeature⟩ .nil)
  exact .record (.insert [] (Entries.agreeUnder_of_forall₂
    (.cons (.of_value "features" hfeatures) .nil)) rfl v)

theorem a_note_at_every_level_is_ignored :
    let es := Entries.noted []
    let ds := Entries.noted [(.str "note",.int 1)]
    (es.has (.str "features") || es.has (.str "encryptedFeatures")) = true ∧
      SameCatalog (.map es) (.map ds) ∧
      Catalog.read (.map es) none 64 = Catalog.read (.map ds) none 64 ∧
      (Catalog.read (.map es) none 64).1.isOk = true := by
  intro es ds
  have hes : (es.has (.str "features") || es.has (.str "encryptedFeatures")) = true := by decide
  have hsame := sameCatalog_noted (.int 1)
  exact ⟨hes,hsame,(unknown_fields_are_ignored hes hsame none 64).1,by decide +kernel⟩

end FlagEngine
